/-!
# Tasks

Callbacks about one call come at the same time and are served at the same time.  A task is what serves one of them: it
looks at a shared state and replaces it, and between two of its pauses nothing else happens.  At a pause other tasks may
run; a task that is run alone passes its pauses by.
-/
namespace Switchboard

/-- The places where other tasks may run. -/
inductive Point where
  /-- Behind a statement to the database. -/
  | statement
  /-- Behind the reading of a segment that is about to be changed. -/
  | reading
  /-- Behind the reading of the newest segment of a call. -/
  | newest
  deriving DecidableEq, Repr

/-- A computation over a state of type `σ` that ends with a value or a fault. -/
inductive Task (σ ε α : Type) where
  | done (a : α)
  | fail (e : ε)
  | look (k : σ → Task σ ε α)
  | put (s : σ) (k : Task σ ε α)
  | pause (p : Point) (k : Task σ ε α)

namespace Task

variable {σ ε α β : Type}

def bind (f : α → Task σ ε β) : Task σ ε α → Task σ ε β
  | done a => f a
  | fail e => fail e
  | look k => look fun s => bind f (k s)
  | put s k => put s (bind f k)
  | pause p k => pause p (bind f k)

instance : Monad (Task σ ε) where
  pure := done
  bind t f := bind f t

def recover (handle : ε → Task σ ε α) : Task σ ε α → Task σ ε α
  | done a => done a
  | fail e => handle e
  | look k => look fun s => recover handle (k s)
  | put s k => put s (recover handle k)
  | pause p k => pause p (recover handle k)

def attempt : Task σ ε α → Task σ ε (Except ε α)
  | done a => done (.ok a)
  | fail e => done (.error e)
  | look k => look fun s => attempt (k s)
  | put s k => put s (attempt k)
  | pause p k => pause p (attempt k)

/-! ## Parts of tasks -/

def state : Task σ ε σ := look done

def asks (f : σ → α) : Task σ ε α := look fun s => done (f s)

def update (f : σ → σ) : Task σ ε Unit := look fun s => put (f s) (done ())

def interrupt (p : Point) : Task σ ε Unit := pause p (done ())

/-- Changes the state and gives a value at once, or fails and leaves the state as it is. -/
def atomically (f : σ → Except ε (α × σ)) : Task σ ε α :=
  look fun s =>
    match f s with
    | .ok (a, s) => put s (done a)
    | .error e => fail e

def ofExcept : Except ε α → Task σ ε α
  | .ok a => done a
  | .error e => fail e

/-! ## Running -/

def run : Task σ ε α → σ → Except ε α × σ
  | done a, s => (.ok a, s)
  | fail e, s => (.error e, s)
  | look k, s => run (k s) s
  | put s k, _ => run k s
  | pause _ k, s => run k s

/-- Runs a task alone up to a pause: the one at a given place behind `skip` others at that place.  What is left is done
where there is no such pause. -/
def runTo (p : Point) : Nat → Task σ ε α → σ → Except (Except ε α) (Task σ ε α) × σ
  | _, done a, s => (.error (.ok a), s)
  | _, fail e, s => (.error (.error e), s)
  | n, look k, s => runTo p n (k s) s
  | n, put s k, _ => runTo p n k s
  | n, pause q k, s =>
    if q = p then
      match n with
      | 0 => (.ok k, s)
      | n + 1 => runTo p n k s
    else runTo p n k s

/-- Runs one task, and another completely at a pause of the first: the results of both, the second where the pause was
reached. -/
def race (p : Point) (skip : Nat) (first : Task σ ε α) (second : Task σ ε β) (s : σ) :
    (Except ε α × Option (Except ε β)) × σ :=
  match runTo p skip first s with
  | (.error result, s) => ((result, none), s)
  | (.ok rest, s) =>
    let (b, s) := second.run s
    let (a, s) := rest.run s
    ((a, some b), s)

end Task

end Switchboard
