import Switchboard.Breaker
import Switchboard.Call.Address
import Switchboard.Provider.Request
import Switchboard.Service.Fault
import Switchboard.Service.Task
import Switchboard.Settings
import Switchboard.Time.Zone
/-!
# The state of the service

All that a task can look at and change: the store, the clock, and what the service has asked its providers, in order.
A provider's part is played by what it will answer: whom it cannot reach, what it refuses, what it will say.
-/
namespace Switchboard

open Provider (Request)
open Time (Instant Moment ZoneDatabase)

/-- How the telephone provider answers. -/
structure Exchange where
  /-- How many legs were placed. -/
  placed : Nat
  /-- The addresses to which no leg can be placed. -/
  unreachable : List String
  refusesTerminate : Bool
  refusesRedirect : Bool
  refusesFetch : Bool
  /-- What a recording sounds like. -/
  recording : String

/-- How the speech provider answers.  Without an account it is not asked. -/
structure Studio where
  /-- Prompts read aloud, one for each request; none where the request fails. -/
  readings : Option (List (Option String))
  readingBreaker : Breaker Instant
  /-- Recordings written down. -/
  writings : Option (List (Option Json))
  writingBreaker : Breaker Instant

structure State where
  now : Instant
  /-- The rules of time zones. -/
  zones : ZoneDatabase
  settings : Settings
  isUp : Bool
  store : Store
  /-- How many conditional writes are still to meet a row that has just changed. -/
  conflicts : Nat
  exchange : Exchange
  studio : Studio
  /-- Stored media: places and contents. -/
  media : List (String × String)
  /-- What providers were asked. -/
  requests : List Request
  /-- How many requests each route has served. -/
  served : List (String × Nat)

abbrev Work (α : Type) := Task State Fault α

namespace Work

def now : Work Instant := Task.asks State.now

def settings : Work Settings := Task.asks State.settings

def callbacks : Work Callbacks := Task.asks fun s => .ofBase s.settings.baseUrl

def note (r : Request) : Work Unit := Task.update fun s => { s with requests := s.requests ++ [r] }

/-! ## The database -/

/-- A statement that may change the store. -/
def statement {α : Type} (f : Store → Except StoreFault (α × Store)) : Work α := do
  let a ← Task.atomically fun s =>
    if s.isUp then
      match f s.store with
      | .ok (a, store) => .ok (a, { s with store })
      | .error e => .error (.refused e)
    else .error .unreachable
  Task.interrupt .statement
  return a

def query {α : Type} (f : Store → α) : Work α := statement fun db => .ok (f db, db)

/-! ## The telephone provider -/

/-- Places a leg: its id, or none where the provider refuses. -/
def placeCall (leg : Provider.Leg) : Work (Option String) :=
  Task.look fun s =>
    if s.exchange.unreachable.contains leg.destination then do
      note (.place leg none)
      return none
    else do
      let sid := "CAleg" ++ toString (s.exchange.placed + 1)
      Task.update fun s => { s with exchange := { s.exchange with placed := s.exchange.placed + 1 } }
      note (.place leg (some sid))
      return some sid

/-- Ends a call or a leg; whether the provider did so. -/
def terminateCall (sid : String) : Work Bool :=
  Task.look fun s => do
    note (.terminate sid (!s.exchange.refusesTerminate))
    return !s.exchange.refusesTerminate

/-- Gives a live call something else to do; whether the provider did so. -/
def redirectCall (sid document : String) : Work Bool :=
  Task.look fun s => do
    note (.redirect sid document (!s.exchange.refusesRedirect))
    return !s.exchange.refusesRedirect

/-- The audio of a recording; none where the provider refuses. -/
def fetchRecording (address : String) : Work (Option String) :=
  Task.look fun s => do
    note (.fetch address (!s.exchange.refusesFetch))
    return if s.exchange.refusesFetch then none else some s.exchange.recording

end Work

end Switchboard
