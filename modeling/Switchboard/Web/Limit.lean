import Switchboard.Service.State
/-!
# Limits

How often one address may be asked for.
-/
namespace Switchboard

/-- What a limit is for. -/
inductive Traffic where
  /-- Reading what is managed. -/
  | reading
  /-- Changing what is managed. -/
  | writing
  /-- Hooks of the telephone provider. -/
  | hook
  deriving DecidableEq, Repr

def Traffic.perMinute : Traffic → Nat
  | reading => 100
  | writing => 30
  | hook => 500

def Traffic.message (t : Traffic) : String := "Rate limit exceeded: " ++ toString t.perMinute ++ " per 1 minute"

def Traffic.key (path : String) (t : Traffic) : String := toString t.perMinute ++ " " ++ path

def countOf (key : String) (served : List (String × Nat)) : Nat :=
  ((served.find? fun p => p.1 = key).map Prod.snd).getD 0

/-- Counts a request; whether it may be served. -/
def Work.admit (t : Traffic) (path : String) : Work Bool :=
  Task.atomically fun s =>
    let count := countOf (t.key path) s.served + 1
    .ok (count ≤ t.perMinute, { s with served := putEntry (t.key path) count s.served })

end Switchboard
