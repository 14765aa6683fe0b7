import Switchboard.Flow.Step
import Switchboard.Text.Digit
import Switchboard.Text.Split
import Switchboard.Time.Zone
/-!
# Opening hours

A schedule picks its first branch with a slot that covers the local weekday and minute.  Ends of slots are exclusive.
-/
namespace Switchboard.Flow

open Time (Instant ZoneDatabase)

/-- The number that digits of any script spell. -/
def digitsNumber (cs : List Char) : Int :=
  ((cs.filterMap Text.digitValue?).foldl (fun n d => n * 10 + d) 0 : Nat)

def minutesOf (time : String) : Int :=
  match Text.splitFirst ':' time.toList with
  | (h, some m) => digitsNumber h * 60 + digitsNumber m
  | (h, none) => digitsNumber h * 60

def Days.weekdays : Days → List Int
  | .preset p => p.days
  | .list ds => ds

def TimeSlot.covers (s : TimeSlot) (weekday minute : Int) : Bool :=
  s.days.weekdays.contains weekday &&
    (s.allDay ||
      match given s.startTime, given s.endTime with
      | some a, some b => minutesOf a ≤ minute && minute < minutesOf b
      | _, _ => false)

def localTime (db : ZoneDatabase) (timezone : String) (now : Instant) : Int × Int :=
  let wall := (Time.localMoment db timezone now).wall
  (Time.weekday (wall / (86400 * Time.second)), wall % (86400 * Time.second) / (60 * Time.second))

/-- The first branch, with its index, that has a slot covering a weekday and a minute. -/
def openBranch? (weekday minute : Int) : Nat → List Branch → Option (Nat × Branch)
  | _, [] => none
  | i, b :: rest =>
    if b.slots.any (fun s => s.covers weekday minute) then some (i, b) else openBranch? weekday minute (i + 1) rest

def matchBranch (db : ZoneDatabase) (timezone : String) (branches : List Branch) (now : Instant) : Option (Nat × Branch) :=
  let (weekday, minute) := localTime db timezone now
  openBranch? weekday minute 0 branches

end Switchboard.Flow
