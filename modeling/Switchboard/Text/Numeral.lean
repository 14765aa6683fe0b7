import Switchboard.Text.Digit
import Switchboard.Text.Blank
import Switchboard.Decimal
/-!
# Numbers in texts

What providers and paths send as numbers: white space around, a sign, digits of any script with single underscores
between them.
-/
namespace Switchboard.Text

/-- White space that may surround a numeral: that of every script but the four information separators. -/
def isNumeralBlank (c : Char) : Bool := isBlank c && !(0x1c ≤ c.toNat && c.toNat ≤ 0x1f)

def splitSign : List Char → Bool × List Char
  | '-' :: r => (true, r)
  | '+' :: r => (false, r)
  | r => (false, r)

/-- The values of digits that single underscores may separate; `fresh` says that a digit has to come next. -/
def digitRun? : Bool → List Char → Option (List Nat)
  | fresh, [] => if fresh then none else some []
  | fresh, c :: rest =>
    if c = '_' then (if fresh then none else digitRun? true rest)
    else do
      let d ← digitValue? c
      let ds ← digitRun? false rest
      return d :: ds

def ofDigits (ds : List Nat) : Nat := ds.foldl (fun n d => n * 10 + d) 0

/-- The integer that a text spells; more than 4300 digits are not converted. -/
def int? (s : String) : Option Int := do
  let (negative, cs) := splitSign (trimBoth isNumeralBlank s.toList)
  let ds ← digitRun? true cs
  if ds.length > 4300 then none
  else
    let n : Int := ofDigits ds
    return if negative then -n else n

/-- Digits up to the first other character, underscores allowed between them. -/
def spanDigits (cs : List Char) : List Char × List Char :=
  (cs.takeWhile (fun c => c = '_' || (digitValue? c).isSome), cs.dropWhile (fun c => c = '_' || (digitValue? c).isSome))

/-- The exponent part of a decimal numeral, which ends it. -/
def exponent? : List Char → Option Int
  | [] => some 0
  | c :: rest =>
    if c = 'e' || c = 'E' then do
      let (negative, cs) := splitSign rest
      let ds ← digitRun? true cs
      let n : Int := ofDigits ds
      return if negative then -n else n
    else none

/-- The unsigned decimal numeral: digits, a point with digits on one side at least, an exponent. -/
def decimal? (negative : Bool) (cs : List Char) : Option Float := do
  let (whole, r1) := spanDigits cs
  let wholeDigits ← if whole.isEmpty then some [] else digitRun? true whole
  let (frac, r2) :=
    match r1 with
    | '.' :: r => spanDigits r
    | r => ([], r)
  let fracDigits ← if frac.isEmpty then some [] else digitRun? true frac
  if wholeDigits.isEmpty && fracDigits.isEmpty then none
  else
    let e ← exponent? r2
    return Decimal.toFloat negative (ofDigits (wholeDigits ++ fracDigits)) (e - fracDigits.length)

def lowerAscii (c : Char) : Char := if 'A' ≤ c ∧ c ≤ 'Z' then Char.ofNat (c.toNat + 32) else c

/-- The floating number that a text spells, with `inf`, `infinity` and `nan` in any case. -/
def float? (s : String) : Option Float :=
  let (negative, cs) := splitSign (trimBoth isNumeralBlank s.toList)
  let word := String.ofList (cs.map lowerAscii)
  if word = "inf" ∨ word = "infinity" then some (if negative then -1.0 / 0.0 else 1.0 / 0.0)
  else if word = "nan" then some (0.0 / 0.0)
  else decimal? negative cs

end Switchboard.Text
