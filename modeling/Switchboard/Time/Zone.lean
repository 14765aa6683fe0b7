import Switchboard.Time.Moment
/-!
# Time zones

A zone says at each point in time how far its clocks are ahead of universal time.  Zones with summer time change twice a
year by rules; the table holds the zones in use.
-/
namespace Switchboard.Time

/-- A zone: its offset in seconds at each point in time. -/
abbrev Zone := Instant → Int

abbrev ZoneDatabase := String → Option Zone

/-- Which day of a month a rule means. -/
inductive SundayRule where
  /-- The `n`-th Sunday, counted from one. -/
  | nth (n : Int)
  | last

def SundayRule.day (r : SundayRule) (year month : Int) : Int :=
  match r with
  | .nth n =>
    let first := Date.toDays ⟨year, month, 1⟩
    first + (7 - weekday first) % 7 + 7 * (n - 1)
  | .last =>
    let final := Date.toDays ⟨year, month, daysInMonth year month⟩
    final - weekday final

/-- When clocks change: a Sunday, and seconds after its start in universal time. -/
structure Change where
  month : Int
  sunday : SundayRule
  seconds : Int

def Change.instant (c : Change) (year : Int) : Instant :=
  (c.sunday.day year c.month * 86400 + c.seconds) * second

/-- Summer time: how much is added, from when and until when. -/
structure Summer where
  add : Int
  starts : Change
  ends : Change

def yearOf (t : Instant) : Int := (Date.ofDays (t / (86400 * second))).year

/-- Whether summer time applies; south of the equator it runs over the turn of the year. -/
def Summer.applies (s : Summer) (t : Instant) : Bool :=
  let year := yearOf t
  let starts := s.starts.instant year
  let ends := s.ends.instant year
  if starts ≤ ends then starts ≤ t && t < ends else starts ≤ t || t < ends

def hours (h : Int) : Int := h * 3600

/-- A zone without summer time. -/
def fixed (offset : Int) : Zone := fun _ => offset

def seasonal (offset : Int) (s : Summer) : Zone := fun t => if s.applies t then offset + s.add else offset

/-- North American summer time: at two o'clock of the second Sunday of March and of the first Sunday of November. -/
def american (offset : Int) : Zone :=
  seasonal offset ⟨hours 1, ⟨3, .nth 2, hours 2 - offset⟩, ⟨11, .nth 1, hours 1 - offset⟩⟩

/-- European summer time: at one o'clock universal time of the last Sundays of March and October. -/
def european (offset : Int) : Zone := seasonal offset ⟨hours 1, ⟨3, .last, hours 1⟩, ⟨10, .last, hours 1⟩⟩

/-- Half an hour of summer time, from the first Sunday of October to the first Sunday of April. -/
def lordHowe : Zone :=
  let offset := hours 10 + 1800
  seasonal offset ⟨1800, ⟨10, .nth 1, hours 2 - offset⟩, ⟨4, .nth 1, hours 2 - offset - 1800⟩⟩

def zones : List (String × Zone) :=
  [("UTC", fixed 0), ("Etc/UTC", fixed 0), ("GMT", fixed 0), ("Etc/GMT+5", fixed (hours (-5))),
   ("America/New_York", american (hours (-5))), ("US/Eastern", american (hours (-5))),
   ("America/Chicago", american (hours (-6))), ("US/Central", american (hours (-6))),
   ("America/Denver", american (hours (-7))), ("US/Mountain", american (hours (-7))),
   ("America/Los_Angeles", american (hours (-8))), ("US/Pacific", american (hours (-8))),
   ("America/Phoenix", fixed (hours (-7))), ("Pacific/Honolulu", fixed (hours (-10))),
   ("Asia/Tokyo", fixed (hours 9)), ("Asia/Kolkata", fixed (hours 5 + 1800)), ("Asia/Kathmandu", fixed (hours 5 + 2700)),
   ("Pacific/Kiritimati", fixed (hours 14)), ("Europe/London", european 0), ("Europe/Paris", european (hours 1)),
   ("Europe/Berlin", european (hours 1)), ("Australia/Lord_Howe", lordHowe)]

def standardZones : ZoneDatabase := fun name => (zones.find? (fun z => z.1 = name)).map Prod.snd

/-- The moment at which a zone's clocks are read; a zone that is not known keeps universal time. -/
def localMoment (db : ZoneDatabase) (name : String) (t : Instant) : Moment :=
  ⟨t, (db name).elim 0 (fun zone => zone t)⟩

end Switchboard.Time
