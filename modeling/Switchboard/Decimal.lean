/-!
# Shortest decimals

The text of a floating number is the shortest decimal that reads back as the same number, written positionally between
10⁻⁴ and 10¹⁶ and in scientific form outside.  The digits are found in exact integer arithmetic: a finite number is
`m · 2^q`, the reals that round to it form an interval, and for one digit, two digits, … the two neighbours of the number
on that decimal grid are tested until one of them lies inside.
-/
namespace Switchboard.Decimal

/-- A positive fraction `num / den`. -/
structure Frac where
  num : Nat
  den : Nat

namespace Frac

/-- `m · 2^q` as a fraction. -/
def ofBinary (m : Nat) (q : Int) : Frac :=
  if q ≥ 0 then ⟨m * Nat.pow 2 q.toNat, 1⟩ else ⟨m, Nat.pow 2 (-q).toNat⟩

/-- `d · 10^p` as a fraction. -/
def ofDecimal (d : Nat) (p : Int) : Frac :=
  if p ≥ 0 then ⟨d * Nat.pow 10 p.toNat, 1⟩ else ⟨d, Nat.pow 10 (-p).toNat⟩

def le (a b : Frac) : Bool := a.num * b.den ≤ b.num * a.den

def lt (a b : Frac) : Bool := a.num * b.den < b.num * a.den

def dist (a b : Frac) : Frac :=
  let x := a.num * b.den
  let y := b.num * a.den
  ⟨if x ≤ y then y - x else x - y, a.den * b.den⟩

/-- The largest integer not above `a / 10^p`. -/
def floorOn (a : Frac) (p : Int) : Nat :=
  if p ≥ 0 then a.num / (a.den * Nat.pow 10 p.toNat) else a.num * Nat.pow 10 (-p).toNat / a.den

end Frac

/-- The decimal magnitude of a positive fraction: the `k` with `10^(k-1) ≤ a < 10^k`, searched from an estimate. -/
def magnitude (a : Frac) : Int :=
  let estimate : Int := (((Nat.log2 (a.num + 1) : Int) - (Nat.log2 a.den : Int)) * 30103) / 100000
  let candidates : List Int := [estimate - 2, estimate - 1, estimate, estimate + 1, estimate + 2, estimate + 3]
  (candidates.find? (fun k => a.lt (Frac.ofDecimal 1 k))).getD (estimate + 4)

/-- The interval of reals that round to a number, with its ends. -/
structure Interval where
  low : Frac
  high : Frac
  /-- Whether the ends belong to it. -/
  closed : Bool

def Interval.contains (i : Interval) (x : Frac) : Bool :=
  if i.closed then i.low.le x && x.le i.high else i.low.lt x && x.lt i.high

/-- The digits `d` and exponent `p` of the shortest decimal `d · 10^p` inside the interval that is nearest to `v`,
with at most `k + n` digits, trying `n`, `n + 1`, … digits. -/
def shortestFrom (v : Frac) (i : Interval) (mag : Int) : Nat → Nat → Nat × Int
  | 0, n => (v.floorOn (mag - n), mag - n)
  | k + 1, n =>
    let p := mag - n
    let d := v.floorOn p
    let below := Frac.ofDecimal d p
    let above := Frac.ofDecimal (d + 1) p
    match i.contains below && d != 0, i.contains above with
    | true, true =>
      if (above.dist v).lt (below.dist v) then (d + 1, p)
      else if (below.dist v).lt (above.dist v) then (d, p)
      else if d % 2 = 0 then (d, p) else (d + 1, p)
    | true, false => (d, p)
    | false, true => (d + 1, p)
    | false, false => shortestFrom v i mag k (n + 1)

/-- Drops the trailing zeros of `d · 10^p`, with at most `fuel` steps. -/
def dropZeros : Nat → Nat → Int → Nat × Int
  | 0, d, p => (d, p)
  | fuel + 1, d, p => if d % 10 = 0 && d != 0 then dropZeros fuel (d / 10) (p + 1) else (d, p)

/-- The shortest digits of the positive finite number `m · 2^q`; `lowest` says that no smaller exponent exists. -/
def digitsOf (m : Nat) (q : Int) (lowest : Bool) : Nat × Int :=
  let v := Frac.ofBinary m q
  let boundary : Bool := m == Nat.pow 2 52 && !lowest
  let low := if boundary then Frac.ofBinary (4 * m - 1) (q - 2) else Frac.ofBinary (2 * m - 1) (q - 1)
  let high := Frac.ofBinary (2 * m + 1) (q - 1)
  let r := shortestFrom v ⟨low, high, m % 2 == 0⟩ (magnitude v) 17 1
  dropZeros 20 r.1 r.2

/-- How a decimal is laid out: where positional notation ends and how wide the exponent is. -/
structure Layout where
  /-- The smallest decimal point position that is written positionally. -/
  low : Int
  /-- The largest one. -/
  high : Int
  exponentDigits : Nat

/-- Times and durations: positional from 10⁻⁴ to 10¹⁶, exponents of at least two digits. -/
def standard : Layout := ⟨-3, 16, 2⟩

/-- The number as digits with `n` leading zeros to a given width. -/
def padLeft (width : Nat) (s : String) : String :=
  String.ofList (List.replicate (width - s.length) '0') ++ s

/-- Lays out `d · 10^p`. -/
def render (layout : Layout) (d : Nat) (p : Int) : String :=
  let digits := toString d
  let point : Int := digits.length + p
  if layout.low ≤ point ∧ point ≤ layout.high then
    if point ≤ 0 then "0." ++ String.ofList (List.replicate (-point).toNat '0') ++ digits
    else if digits.length ≤ point.toNat then
      digits ++ String.ofList (List.replicate (point.toNat - digits.length) '0') ++ ".0"
    else String.ofList (digits.toList.take point.toNat) ++ "." ++ String.ofList (digits.toList.drop point.toNat)
  else
    let e := point - 1
    let mantissa :=
      if digits.length = 1 then digits
      else String.ofList (digits.toList.take 1) ++ "." ++ String.ofList (digits.toList.drop 1)
    mantissa ++ "e" ++ (if e < 0 then "-" else "+") ++ padLeft layout.exponentDigits (toString e.natAbs)

def ofFloat (x : Float) : String :=
  let bits := x.toBits.toNat
  let sign := if bits / Nat.pow 2 63 = 1 then "-" else ""
  let e : Nat := bits / Nat.pow 2 52 % 2048
  let f : Nat := bits % Nat.pow 2 52
  if e = 2047 then (if f = 0 then sign ++ "Infinity" else "NaN")
  else if e = 0 ∧ f = 0 then sign ++ "0.0"
  else
    let r := if e = 0 then digitsOf f (-1074) true else digitsOf (f + Nat.pow 2 52) ((e : Int) - 1075) (e == 1)
    sign ++ render standard r.1 r.2

/-- A floating number without its fraction; none for infinities and what is not a number. -/
def truncate? (x : Float) : Option Int :=
  let bits := x.toBits.toNat
  let e : Nat := bits / Nat.pow 2 52 % 2048
  let f : Nat := bits % Nat.pow 2 52
  if e = 2047 then none
  else
    let m : Nat := if e = 0 then f else f + Nat.pow 2 52
    let q : Int := if e = 0 then -1074 else (e : Int) - 1075
    let n : Int := if q ≥ 0 then (m * Nat.pow 2 q.toNat : Nat) else (m / Nat.pow 2 (-q).toNat : Nat)
    some (if bits / Nat.pow 2 63 = 1 then -n else n)

/-- The number nearest to `d · 10^e`, from its digits. -/
def toFloat (negative : Bool) (d : Nat) (e : Int) : Float :=
  let magnitude : Int := (toString d).length + e
  let x :=
    if d = 0 then 0.0
    else if magnitude > 400 then 1.0 / 0.0
    else if magnitude < -400 then 0.0
    else if e ≥ 0 then Float.ofScientific d false e.toNat
    else Float.ofScientific d true (-e).toNat
  if negative then -x else x

end Switchboard.Decimal
