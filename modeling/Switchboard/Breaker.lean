/-!
# Circuit breakers

A breaker counts the failures of a provider since its last success.  At a threshold it opens: calls are answered by a
fallback at once.  After a recovery time one call may probe the provider; its success closes the breaker.  Times are of any
ordered type with differences.
-/
namespace Switchboard

/-- Whether calls go through, are answered by the fallback, or probe. -/
inductive BreakerState where
  | closed
  | opened
  | halfOpen
  deriving DecidableEq, Repr

def BreakerState.name : BreakerState → String
  | closed => "closed"
  | opened => "open"
  | halfOpen => "half_open"

/-- When a breaker opens and how long it stays open. -/
structure BreakerLimits (τ : Type) where
  threshold : Int
  recovery : τ

structure Breaker (τ : Type) where
  state : BreakerState
  failures : Int
  lastFailure : τ

variable {τ : Type} [Sub τ] [LT τ] [DecidableLT τ] [OfNat τ 0]

namespace Breaker

/-- A breaker that has seen nothing. -/
def fresh : Breaker τ := ⟨.closed, 0, 0⟩

/-- Whether a call that starts now is carried out, and the breaker after its start. -/
def start (l : BreakerLimits τ) (now : τ) (b : Breaker τ) : Bool × Breaker τ :=
  match b.state with
  | .opened => if l.recovery < now - b.lastFailure then (true, { b with state := .halfOpen }) else (false, b)
  | _ => (true, b)

/-- The breaker after a call that was carried out failed. -/
def fail (l : BreakerLimits τ) (now : τ) (b : Breaker τ) : Breaker τ :=
  let failures := b.failures + 1
  ⟨if b.state = .halfOpen || l.threshold ≤ failures then .opened else b.state, failures, now⟩

/-- The breaker after a call that was carried out succeeded. -/
def succeed (b : Breaker τ) : Breaker τ := { b with state := .closed, failures := 0 }

/-- How a call that is carried out ends: with an answer or without one. -/
def finish (l : BreakerLimits τ) (now : τ) (succeeded : Bool) (b : Breaker τ) : Breaker τ :=
  if succeeded then b.succeed else b.fail l now

/-- One call at a time: whether it was carried out, and the breaker after it. -/
def call (l : BreakerLimits τ) (now : τ) (succeeds : Bool) (b : Breaker τ) : Bool × Breaker τ :=
  let (allowed, b) := b.start l now
  if allowed then (true, b.finish l now succeeds) else (false, b)

/-- Calls one after another, each with its time and whether the provider succeeds: whether each was answered by the
provider, and the breaker behind it. -/
def calls (l : BreakerLimits τ) : Breaker τ → List (τ × Bool) → List (Bool × Breaker τ)
  | _, [] => []
  | b, (now, succeeds) :: rest =>
    let (allowed, after) := b.call l now succeeds
    (allowed && succeeds, after) :: calls l after rest

/-! ## Calls with their answers -/

/-- How a call ends that the provider is asked to carry out. -/
inductive Ending (α : Type) where
  | answered (a : α)
  | failed
  /-- The call took longer than it may. -/
  | timedOut

namespace Ending

def succeeded {α : Type} : Ending α → Bool
  | answered _ => true
  | failed | timedOut => false

/-- What the caller is given. -/
def answer {α : Type} (fallback : α) : Ending α → α
  | answered a => a
  | failed | timedOut => fallback

end Ending

/-- A call: when it starts and ends, how it ends if it is carried out, and what the caller is given otherwise. -/
structure Asked (τ α : Type) where
  began : τ
  ended : τ
  ending : Ending α
  fallback : α

/-- What came of a call, and the breaker behind it. -/
structure Served (τ α : Type) where
  call : Asked τ α
  carriedOut : Bool
  answer : α
  breaker : Breaker τ

/-- Serves a call that no other overlaps. -/
def serve {α : Type} (l : BreakerLimits τ) (b : Breaker τ) (c : Asked τ α) : Served τ α :=
  let (allowed, asked) := b.start l c.began
  if allowed then ⟨c, true, c.ending.answer c.fallback, asked.finish l c.ended c.ending.succeeded⟩
  else ⟨c, false, c.fallback, asked⟩

/-- Serves calls one after another. -/
def serveAll {α : Type} (l : BreakerLimits τ) : Breaker τ → List (Asked τ α) → List (Served τ α)
  | _, [] => []
  | b, c :: rest => serve l b c :: serveAll l (serve l b c).breaker rest

end Breaker

end Switchboard
