import Switchboard.Text.Split
/-!
# Percent encoding

Query strings and address parts.  Letters, digits and `_ . - ~` stay as they are, every other byte of the UTF-8 text
becomes `%` and two upper-case digits; forms write a blank as `+`.
-/
namespace Switchboard.Text.Percent

def isUnreserved (c : Char) : Bool :=
  ('A' ≤ c && c ≤ 'Z') || ('a' ≤ c && c ≤ 'z') || ('0' ≤ c && c ≤ '9') || c = '_' || c = '.' || c = '-' || c = '~'

def upperHex (n : Nat) : Char := if n < 10 then Char.ofNat (48 + n) else Char.ofNat (55 + n)

/-- `%` and the two digits of a byte. -/
def escapeByte (b : UInt8) : List Char := ['%', upperHex (b.toNat / 16), upperHex (b.toNat % 16)]

def escapeChar (c : Char) : List Char := (c.toString.toUTF8.toList).flatMap escapeByte

/-- How the characters of a part are written: which stay, and whether a blank is a plus. -/
structure Rule where
  keeps : Char → Bool
  plus : Bool

/-- Form fields: a blank is a plus. -/
def form : Rule := ⟨isUnreserved, true⟩

/-- Address parts: a blank is `%20` and a slash stays. -/
def part : Rule := ⟨fun c => isUnreserved c || c = '/', false⟩

/-- Address values: a blank is `%20` and a slash is escaped. -/
def value : Rule := ⟨isUnreserved, false⟩

def encodeChar (r : Rule) (c : Char) : List Char :=
  if c = ' ' ∧ r.plus then ['+'] else if r.keeps c then [c] else escapeChar c

def encode (r : Rule) (s : String) : String := String.ofList (s.toList.flatMap (encodeChar r))

def query (r : Rule) (fields : List (String × String)) : String :=
  String.intercalate "&" (fields.map (fun f => encode r f.1 ++ "=" ++ encode r f.2))

def hexValue? (c : Char) : Option Nat :=
  if '0' ≤ c ∧ c ≤ '9' then some (c.toNat - 48)
  else if 'a' ≤ c ∧ c ≤ 'f' then some (c.toNat - 87)
  else if 'A' ≤ c ∧ c ≤ 'F' then some (c.toNat - 55)
  else none

/-- The bytes that an encoded text stands for; a `%` without two digits stands for itself. -/
def bytes (plus : Bool) : List Char → List UInt8
  | '%' :: a :: b :: rest =>
    match hexValue? a, hexValue? b with
    | some x, some y => (x * 16 + y).toUInt8 :: bytes plus rest
    | _, _ => 37 :: bytes plus (a :: b :: rest)
  | c :: rest => (if c = '+' && plus then [32] else c.toString.toUTF8.toList) ++ bytes plus rest
  | [] => []

/-- What stands for bytes that are no character. -/
def replacement : Char := Char.ofNat 0xFFFD

/-- The value that the first byte of a character carries, and the ranges of the bytes that have to follow it. -/
def opening? (a : UInt8) : Option (Nat × List (UInt8 × UInt8)) :=
  let any : UInt8 × UInt8 := (0x80, 0xBF)
  if a < 0x80 then some (a.toNat, [])
  else if a < 0xC2 then none
  else if a < 0xE0 then some (a.toNat - 0xC0, [any])
  else if a = 0xE0 then some (0, [(0xA0, 0xBF), any])
  else if a = 0xED then some (0xD, [(0x80, 0x9F), any])
  else if a < 0xF0 then some (a.toNat - 0xE0, [any, any])
  else if a = 0xF0 then some (0, [(0x90, 0xBF), any, any])
  else if a < 0xF4 then some (a.toNat - 0xF0, [any, any, any])
  else if a = 0xF4 then some (4, [(0x80, 0x8F), any, any])
  else none

/-- The character that a value and the bytes behind it make up, and what follows it.  As many bytes as could begin a
character are replaced together where they do not make one up. -/
def complete (value : Nat) : List (UInt8 × UInt8) → List UInt8 → Char × List UInt8
  | [], rest => (Char.ofNat value, rest)
  | _ :: _, [] => (replacement, [])
  | r :: ranges, b :: rest =>
    if r.1 ≤ b && b ≤ r.2 then complete (value * 64 + (b.toNat - 0x80)) ranges rest else (replacement, b :: rest)

def nextChar : List UInt8 → Char × List UInt8
  | [] => (replacement, [])
  | a :: rest =>
    match opening? a with
    | some (value, ranges) => complete value ranges rest
    | none => (replacement, rest)

/-- The text of UTF-8 bytes, with at most `fuel` characters. -/
def decodeUtf8 : Nat → List UInt8 → List Char
  | 0, _ => []
  | _, [] => []
  | fuel + 1, bs => (nextChar bs).1 :: decodeUtf8 fuel (nextChar bs).2

def decode (plus : Bool) (s : String) : String :=
  let bs := bytes plus s.toList
  String.ofList (decodeUtf8 bs.length bs)

/-- The fields of a query string; those with an empty value are kept. -/
def fields (text : String) : List (String × String) :=
  ((splitOn '&' text.toList).filter (fun p => !p.isEmpty)).map fun p =>
    let (k, v) := splitFirst '=' p
    (decode true (String.ofList k), decode true (String.ofList (v.getD [])))

end Switchboard.Text.Percent
