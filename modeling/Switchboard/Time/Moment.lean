import Switchboard.Time.Calendar
/-!
# Moments

A moment is a point in time, counted in microseconds, together with the offset of the clock it was read from.  Moments
compare by the point in time alone.
-/
namespace Switchboard.Time

/-- A point in time: microseconds since the start of 1970 in universal time. -/
abbrev Instant := Int

def second : Int := 1000000

structure Moment where
  instant : Instant
  /-- Seconds that the clock is ahead of universal time. -/
  offset : Int
  deriving DecidableEq, Repr

namespace Moment

def utc (t : Instant) : Moment := ⟨t, 0⟩

/-- What the clock shows, as microseconds of an unshifted clock. -/
def wall (m : Moment) : Int := m.instant + m.offset * second

/-- The whole seconds from one moment to another, toward zero. -/
def secondsSince (later earlier : Moment) : Int := Int.tdiv (later.instant - earlier.instant) second

end Moment

/-! ## Writing -/

def padded (width : Nat) (n : Int) : String :=
  let s := toString n.natAbs
  String.ofList (List.replicate (width - s.length) '0') ++ s

/-- The offset of a clock: a sign, hours and minutes, seconds only where there are any. -/
def offsetText (offset : Int) : String :=
  let n : Int := offset.natAbs
  (if offset < 0 then "-" else "+") ++ padded 2 (n / 3600) ++ ":" ++ padded 2 (n / 60 % 60) ++
    (if n % 60 = 0 then "" else ":" ++ padded 2 (n % 60))

/-- Date and time of a clock; microseconds only where there are any. -/
def wallText (wall : Int) : String :=
  let days := wall / (86400 * second)
  let rest := wall % (86400 * second)
  let d := Date.ofDays days
  let s := rest / second
  let us := rest % second
  padded 4 d.year ++ "-" ++ padded 2 d.month ++ "-" ++ padded 2 d.day ++ "T" ++
    padded 2 (s / 3600) ++ ":" ++ padded 2 (s / 60 % 60) ++ ":" ++ padded 2 (s % 60) ++
    (if us = 0 then "" else "." ++ padded 6 us)

def Moment.text (m : Moment) : String := wallText m.wall ++ offsetText m.offset

/-! ## Reading -/

/-- A number of exactly `n` digits. -/
def fixedDigits : Nat → List Char → Option (Int × List Char)
  | 0, cs => some (0, cs)
  | n + 1, cs =>
    match cs with
    | [] => none
    | _ =>
      let ds := cs.take (n + 1)
      if ds.length = n + 1 && ds.all Char.isDigit then
        some (((ds.foldl (fun k c => k * 10 + (c.toNat - 48)) 0 : Nat) : Int), cs.drop (n + 1))
      else none

/-- The rest of a text behind an expected character. -/
def expect (c : Char) : List Char → Option (List Char)
  | d :: rest => if c = d then some rest else none
  | [] => none

/-- A fraction of a second in microseconds; further digits are dropped. -/
def fraction (cs : List Char) : Int × List Char :=
  match cs with
  | '.' :: rest =>
    let ds := rest.takeWhile Char.isDigit
    let six := (ds ++ List.replicate 6 '0').take 6
    (((six.foldl (fun k c => k * 10 + (c.toNat - 48)) 0 : Nat) : Int), rest.dropWhile Char.isDigit)
  | _ => (0, cs)

/-- Hours, minutes and, where given, seconds. -/
def clock (cs : List Char) : Option (Int × List Char) := do
  let (h, r) ← fixedDigits 2 cs
  let r ← expect ':' r
  let (m, r) ← fixedDigits 2 r
  if h > 23 || m > 59 then none
  else match expect ':' r with
    | none => some (h * 3600 + m * 60, r)
    | some r => do
      let (s, r) ← fixedDigits 2 r
      if s > 59 then none else some (h * 3600 + m * 60 + s, r)

/-- The offset behind a time of day; none is universal time. -/
def offset? (cs : List Char) : Option Int :=
  match cs with
  | [] => some 0
  | ['Z'] => some 0
  | '+' :: r =>
    match clock r with
    | some (n, []) => some n
    | _ => none
  | '-' :: r =>
    match clock r with
    | some (n, []) => some (-n)
    | _ => none
  | _ => none

def Moment.ofText? (text : String) : Option Moment := do
  let (year, r) ← fixedDigits 4 text.toList
  let r ← expect '-' r
  let (month, r) ← fixedDigits 2 r
  let r ← expect '-' r
  let (day, r) ← fixedDigits 2 r
  if month < 1 || month > 12 || day < 1 || day > daysInMonth year month || year < 1 then none
  else
    let days := Date.toDays ⟨year, month, day⟩
    match r with
    | [] => some ⟨days * 86400 * second, 0⟩
    | _ :: r =>
      let (s, r) ← clock r
      let (us, r) := fraction r
      let offset ← offset? r
      return ⟨(days * 86400 + s - offset) * second + us, offset⟩

end Switchboard.Time
