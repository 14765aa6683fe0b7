import Switchboard.Input.Issue
/-!
# Checked values and fields

How single values are read from a JSON document.  Integers come also as numeric texts, integral fractions and booleans,
booleans also as words and as 0 and 1; texts only as texts.  A field is looked up under its camel-case name first and its
spelled-out name second.
-/
namespace Switchboard.Input

/-! ## Single values -/

def asText (v : Json) : Checked String :=
  match v with
  | .str s => .ok s
  | _ => .issue .textExpected v

def textWithin (least : Nat) (most : Option Nat) (v : Json) : Checked String :=
  (asText v).andThen fun s =>
    if s.length < least then .issue (.tooShort least) v
    else match most with
      | some m => if s.length > m then .issue (.tooLong m) v else .ok s
      | none => .ok s

/-- A text of a given shape; `shape` is how the shape is reported. -/
def textShaped (shape : String) (fits : String → Bool) (v : Json) : Checked String :=
  (asText v).andThen fun s => if fits s then .ok s else .issue (.pattern shape) v

/-- One of several words, read by `read`. -/
def asWord {α : Type} (values : List String) (read : String → Option α) (v : Json) : Checked α :=
  match v with
  | .str s =>
    match read s with
    | some a => .ok a
    | none => .issue (.notAmong values) v
  | _ => .issue (.notAmong values) v

def nullable {α : Type} (read : Json → Checked α) (v : Json) : Checked (Option α) :=
  match v with
  | .null => .ok none
  | _ => (read v).map some

def isTextBlank (c : Char) : Bool :=
  let n := c.toNat
  (0x9 ≤ n && n ≤ 0xd) || n = 0x20 || n = 0x85 || n = 0xa0 || n = 0x1680 || (0x2000 ≤ n && n ≤ 0x200a) ||
  n = 0x2028 || n = 0x2029 || n = 0x202f || n = 0x205f || n = 0x3000

def isAsciiDigit (c : Char) : Bool := '0' ≤ c && c ≤ '9'

/-- The value of ASCII digits with single underscores between them; `fresh` says that a digit has to come next. -/
def digitsFrom : Bool → Nat → List Char → Option Nat
  | fresh, n, [] => if fresh then none else some n
  | fresh, n, c :: rest =>
    if c = '_' then (if fresh then none else digitsFrom true n rest)
    else if isAsciiDigit c then digitsFrom false (n * 10 + (c.toNat - 48)) rest
    else none

/-- The characters before a point that only zeros follow. -/
def withoutZeroFraction (cs : List Char) : List Char :=
  match cs.dropWhile (· != '.') with
  | [] => cs
  | _ :: rest => if rest.all (· = '0') then cs.takeWhile (· != '.') else cs

/-- The integer that a text spells: blanks around, a sign, digits, a fraction of zeros. -/
def intOfText (s : String) : Option Int :=
  let cs := s.toList.dropWhile isTextBlank
  let cs := (cs.reverse.dropWhile isTextBlank).reverse
  match cs with
  | '-' :: r => (digitsFrom true 0 (withoutZeroFraction r)).map (fun n => -(n : Int))
  | '+' :: r => (digitsFrom true 0 (withoutZeroFraction r)).map (fun n => (n : Int))
  | r => (digitsFrom true 0 (withoutZeroFraction r)).map (fun n => (n : Int))

/-- The integer of an integral floating number that lies strictly between the bounds of 64 bits, or what is wrong with
it. -/
def integral (x : Float) : Except Defect Int :=
  if x.isNaN || x.isInf then .error .notFinite
  else if x.floor != x then .error .intFraction
  else if x ≥ 9223372036854775808.0 || x ≤ -9223372036854775808.0 then .error .intTooLarge
  else .ok ((Decimal.truncate? x).getD 0)

def asInt (v : Json) : Checked Int :=
  match v with
  | .int n => .ok n
  | .bool b => .ok (if b then 1 else 0)
  | .float x =>
    match integral x with
    | .ok n => .ok n
    | .error d => .issue d v
  | .str s =>
    if s.utf8ByteSize > 4300 then .issue .intTooLarge v
    else match intOfText s with
      | some n => .ok n
      | none => .issue .intUnreadable v
  | _ => .issue .intExpected v

def intWithin (least : Int) (most : Option Int) (v : Json) : Checked Int :=
  (asInt v).andThen fun n =>
    if n < least then .issue (.below least) v
    else match most with
      | some m => if n > m then .issue (.above m) v else .ok n
      | none => .ok n

def lowerAscii (c : Char) : Char := if 'A' ≤ c ∧ c ≤ 'Z' then Char.ofNat (c.toNat + 32) else c

/-- The truth value that a word stands for, in any case. -/
def boolOfText (s : String) : Option Bool :=
  let w := String.ofList (s.toList.map lowerAscii)
  if ["true", "t", "yes", "y", "on", "1"].contains w then some true
  else if ["false", "f", "no", "n", "off", "0"].contains w then some false
  else none

def boolOfInt (n : Int) : Option Bool := if n = 1 then some true else if n = 0 then some false else none

/-- A truth value; an integer beyond 64 bits is not even taken for one. -/
def asBool (v : Json) : Checked Bool :=
  let read (b : Option Bool) : Checked Bool :=
    match b with
    | some b => .ok b
    | none => .issue .boolUnreadable v
  match v with
  | .bool b => .ok b
  | .int n => if -9223372036854775808 ≤ n ∧ n < 9223372036854775808 then read (boolOfInt n) else .issue .boolExpected v
  | .float x =>
    match integral x with
    | .ok n => read (boolOfInt n)
    | .error _ => .issue .boolExpected v
  | .str s => read (boolOfText s)
  | _ => .issue .boolExpected v

/-! ## Lists -/

/-- Every item of a list, counted from `i`. -/
def itemsFrom {α : Type} (read : Json → Checked α) : Nat → List Json → Checked (List α)
  | _, [] => .ok []
  | i, v :: rest => (List.cons <$> (read v).under (.item i)) <*> itemsFrom read (i + 1) rest

def asList {α : Type} (read : Json → Checked α) (v : Json) : Checked (List α) :=
  match v with
  | .arr xs => itemsFrom read 0 xs
  | _ => .issue .listExpected v

/-- A list with at least `least` items. -/
def asListOf {α : Type} (least : Nat) (read : Json → Checked α) (v : Json) : Checked (List α) :=
  (asList read v).andThen fun xs =>
    if xs.length < least then .issue (.tooFew least xs.length) v else .ok xs

/-! ## Fields -/

/-- The two names of a field. -/
structure Name where
  camel : String
  spelled : String

def Name.one (s : String) : Name := ⟨s, s⟩

def Name.find? (n : Name) (fs : List (String × Json)) : Option (String × Json) :=
  match Json.lookup n.camel fs with
  | some v => some (n.camel, v)
  | none => (Json.lookup n.spelled fs).map fun v => (n.spelled, v)

def required {α : Type} (n : Name) (read : Json → Checked α) (fs : List (String × Json)) : Checked α :=
  match n.find? fs with
  | some (k, v) => (read v).under (.field k)
  | none => .bad [⟨.missing, [.field n.camel], .obj fs⟩]

/-- A field with a default. -/
def field {α : Type} (n : Name) (default : α) (read : Json → Checked α) (fs : List (String × Json)) : Checked α :=
  match n.find? fs with
  | some (k, v) => (read v).under (.field k)
  | none => .ok default

/-- The fields of an object that stands for a `model`. -/
def object {α : Type} (model : String) (read : List (String × Json) → Checked α) (v : Json) : Checked α :=
  match v with
  | .obj fs => read fs
  | _ => .issue (.objectExpected model) v

end Switchboard.Input
