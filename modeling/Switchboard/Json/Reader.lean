import Switchboard.Json.Basic
import Switchboard.Decimal
/-!
# Reading JSON

A reader for a whole text.  Beyond the standard it takes `NaN`, `Infinity` and `-Infinity`; the last of two fields with
one name wins and keeps the first one's place.  A refusal carries its cause and the place, counted in characters, where
it arose; places are computed from what is left of the text.
-/
namespace Switchboard.Json

/-- Why a text is not JSON. -/
inductive Fault where
  | value
  | property
  | colon
  | comma
  | unterminated
  | control
  | escape
  | unicodeEscape
  | extra
  | byteOrderMark
  /-- An integer with more digits than are converted. -/
  | digits
  deriving DecidableEq, Repr

def Fault.message : Fault → String
  | .value => "Expecting value"
  | .property => "Expecting property name enclosed in double quotes"
  | .colon => "Expecting ':' delimiter"
  | .comma => "Expecting ',' delimiter"
  | .unterminated => "Unterminated string starting at"
  | .control => "Invalid control character at"
  | .escape => "Invalid \\escape"
  | .unicodeEscape => "Invalid \\uXXXX escape"
  | .extra => "Extra data"
  | .byteOrderMark => "Unexpected UTF-8 BOM (decode using utf-8-sig)"
  | .digits => "Exceeds the limit (4300 digits) for integer string conversion"

/-- A refusal and how many characters were left where it arose. -/
structure Refusal where
  fault : Fault
  left : Nat

def isBlank (c : Char) : Bool := c = ' ' || c = '\t' || c = '\n' || c = '\r'

def skipBlank (cs : List Char) : List Char := cs.dropWhile isBlank

def refuse {α : Type} (f : Fault) (rest : List Char) : Except Refusal α := .error ⟨f, rest.length⟩

def hexValue? (c : Char) : Option Nat :=
  if '0' ≤ c ∧ c ≤ '9' then some (c.toNat - 48)
  else if 'a' ≤ c ∧ c ≤ 'f' then some (c.toNat - 87)
  else if 'A' ≤ c ∧ c ≤ 'F' then some (c.toNat - 55)
  else none

def unit? : List Char → Option Nat
  | [a, b, c, d] => do
    let a ← hexValue? a
    let b ← hexValue? b
    let c ← hexValue? c
    let d ← hexValue? d
    return a * 4096 + b * 256 + c * 16 + d
  | _ => none

/-- The code unit after `\u`: its digits must be followed by at least one more character. -/
def readUnit (rest : List Char) : Except Refusal (Nat × List Char) :=
  match unit? (rest.take 4) with
  | some n => if rest.length ≤ 4 then .error ⟨.unicodeEscape, rest.length + 1⟩ else .ok (n, rest.drop 4)
  | none => .error ⟨.unicodeEscape, rest.length + 1⟩

/-- The character of a code unit; one that stands alone in the surrogate range is replaced. -/
def unitChar (n : Nat) : Char :=
  if 0xD800 ≤ n ∧ n < 0xE000 then Char.ofNat 0xFFFD else Char.ofNat n

/-- What follows a backslash; `rest` starts behind it. -/
def readEscape (opening : Nat) : List Char → Except Refusal (Char × List Char)
  | [] => .error ⟨.unterminated, opening⟩
  | 'u' :: rest => do
    let (n, after) ← readUnit rest
    if 0xD800 ≤ n ∧ n < 0xDC00 ∧ after.length > 6 then
      match after with
      | '\\' :: 'u' :: more =>
        match unit? (more.take 4) with
        | none => .error ⟨.unicodeEscape, more.length + 1⟩
        | some low =>
          if 0xDC00 ≤ low ∧ low < 0xE000 then
            .ok (Char.ofNat (0x10000 + (n - 0xD800) * 1024 + (low - 0xDC00)), more.drop 4)
          else .ok (unitChar n, after)
      | _ => .ok (unitChar n, after)
    else .ok (unitChar n, after)
  | c :: rest =>
    if c = '"' then .ok ('"', rest)
    else if c = '\\' then .ok ('\\', rest)
    else if c = '/' then .ok ('/', rest)
    else if c = 'b' then .ok (Char.ofNat 8, rest)
    else if c = 'f' then .ok (Char.ofNat 12, rest)
    else if c = 'n' then .ok ('\n', rest)
    else if c = 'r' then .ok ('\r', rest)
    else if c = 't' then .ok ('\t', rest)
    else .error ⟨.escape, rest.length + 2⟩

/-- The rest of a string literal whose opening quote had `opening` characters from it to the end. -/
def readString (opening : Nat) : Nat → List Char → List Char → Except Refusal (String × List Char)
  | 0, _, _ => .error ⟨.unterminated, opening⟩
  | _ + 1, _, [] => .error ⟨.unterminated, opening⟩
  | fuel + 1, acc, c :: rest =>
    if c = '"' then .ok (String.ofList acc.reverse, rest)
    else if c = '\\' then do
      let (d, after) ← readEscape opening rest
      readString opening fuel (d :: acc) after
    else if c.toNat < 32 then .error ⟨.control, rest.length + 1⟩
    else readString opening fuel (c :: acc) rest

def isDigit (c : Char) : Bool := '0' ≤ c && c ≤ '9'

def digitsValue (ds : List Char) : Nat := ds.foldl (fun n c => n * 10 + (c.toNat - 48)) 0

/-- The integer part: one zero, or digits that start with another one. -/
def readWhole (cs : List Char) : Option (List Char × List Char) :=
  match cs with
  | '0' :: rest => some (['0'], rest)
  | c :: _ => if isDigit c then some (cs.takeWhile isDigit, cs.dropWhile isDigit) else none
  | [] => none

/-- A fraction: a point and at least one digit. -/
def readFraction : List Char → List Char × List Char
  | '.' :: rest => if rest.head?.any isDigit then (rest.takeWhile isDigit, rest.dropWhile isDigit) else ([], '.' :: rest)
  | cs => ([], cs)

/-- An exponent: its mark, a sign and at least one digit. -/
def readExponent (cs : List Char) : Option Int × List Char :=
  match cs with
  | c :: rest =>
    if c = 'e' || c = 'E' then
      let (negative, ds) :=
        match rest with
        | '-' :: r => (true, r)
        | '+' :: r => (false, r)
        | r => (false, r)
      if ds.head?.any isDigit then
        let n : Int := digitsValue (ds.takeWhile isDigit)
        (some (if negative then -n else n), ds.dropWhile isDigit)
      else (none, cs)
    else (none, cs)
  | [] => (none, cs)

/-- A number, given what stood before its sign for the place of a refusal. -/
def readNumber (start : List Char) (negative : Bool) (cs : List Char) : Except Refusal (Json × List Char) :=
  match readWhole cs with
  | none => refuse .value start
  | some (whole, r1) =>
    let (frac, r2) := readFraction r1
    let (exponent, r3) := readExponent r2
    if frac.isEmpty && exponent.isNone then
      if whole.length > 4300 then refuse .digits start
      else
        let n : Int := digitsValue whole
        .ok (.int (if negative then -n else n), r3)
    else
      .ok (.float (Decimal.toFloat negative (digitsValue (whole ++ frac)) (exponent.getD 0 - frac.length)), r3)

/-- What is left after a word at the front of a text. -/
def stripWord : List Char → List Char → Option (List Char)
  | [], cs => some cs
  | w :: ws, c :: cs => if w = c then stripWord ws cs else none
  | _ :: _, [] => none

def words : List (List Char × Json) :=
  [("null".toList, .null), ("true".toList, .bool true), ("false".toList, .bool false),
   ("NaN".toList, .float (0.0 / 0.0)), ("Infinity".toList, .float (1.0 / 0.0)),
   ("-Infinity".toList, .float (-1.0 / 0.0))]

mutual

/-- One value at the very front of `cs`. -/
def readValue : Nat → List Char → Except Refusal (Json × List Char)
  | 0, cs => refuse .value cs
  | fuel + 1, cs =>
    match cs with
    | '"' :: rest => do
      let (s, after) ← readString cs.length (rest.length + 1) [] rest
      .ok (.str s, after)
    | '[' :: rest =>
      match skipBlank rest with
      | ']' :: after => .ok (.arr [], after)
      | inner => readItems fuel [] inner
    | '\x7b' :: rest =>
      match skipBlank rest with
      | '\x7d' :: after => .ok (.obj [], after)
      | inner => readFields fuel [] inner
    | _ =>
      match words.findSome? (fun w => (stripWord w.1 cs).map (fun after => (w.2, after))) with
      | some r => .ok r
      | none =>
        match cs with
        | '-' :: rest => readNumber cs true rest
        | _ => readNumber cs false cs

def readItems : Nat → List Json → List Char → Except Refusal (Json × List Char)
  | 0, _, cs => refuse .value cs
  | fuel + 1, acc, cs => do
    let (v, after) ← readValue fuel cs
    match skipBlank after with
    | ']' :: rest => .ok (.arr (v :: acc).reverse, rest)
    | ',' :: rest => readItems fuel (v :: acc) (skipBlank rest)
    | rest => refuse .comma rest

def readFields : Nat → List (String × Json) → List Char → Except Refusal (Json × List Char)
  | 0, _, cs => refuse .value cs
  | fuel + 1, acc, cs =>
    match cs with
    | '"' :: rest => do
      let (key, after) ← readString cs.length (rest.length + 1) [] rest
      match skipBlank after with
      | ':' :: rest => do
        let (v, after) ← readValue fuel (skipBlank rest)
        let acc := setField key v acc
        match skipBlank after with
        | '\x7d' :: rest => .ok (.obj acc, rest)
        | ',' :: rest => readFields fuel acc (skipBlank rest)
        | rest => refuse .comma rest
      | rest => refuse .colon rest
    | _ => refuse .property cs

end

/-- A refusal and the place of the text where it arose: the characters before it, its line and its column. -/
structure ParseError where
  fault : Fault
  offset : Nat
  line : Nat
  column : Nat
  deriving DecidableEq, Repr

/-- A refusal behind some characters of a text. -/
def ParseError.behind (text : List Char) (fault : Fault) (offset : Nat) : ParseError :=
  let passed := text.take offset
  ⟨fault, offset, passed.count '\n' + 1, (passed.reverse.takeWhile (· != '\n')).length + 1⟩

def ParseError.message (e : ParseError) : String :=
  e.fault.message ++ ": line " ++ toString e.line ++ " column " ++ toString e.column ++ " (char " ++ toString e.offset ++ ")"

def byteOrderMark : Char := Char.ofNat 0xFEFF

/-- The value that characters spell, with blanks around it. -/
def spelled (cs : List Char) : Except ParseError Json :=
  let total := cs.length
  match readValue (total + 1) (skipBlank cs) with
  | .error r => .error (.behind cs r.fault (total - r.left))
  | .ok (v, rest) =>
    match skipBlank rest with
    | [] => .ok v
    | extra => .error (.behind cs .extra (total - extra.length))

/-- The value that a text holds; no mark may stand in front of it. -/
def parse (text : String) : Except ParseError Json :=
  let cs := text.toList
  if cs.head? = some byteOrderMark then .error (.behind cs .byteOrderMark 0) else spelled cs

/-- The value that a message holds; a mark in front of it is left out. -/
def parseMessage (text : String) : Except ParseError Json :=
  match text.toList with
  | [] => spelled []
  | c :: cs => spelled (if c = byteOrderMark then cs else c :: cs)

/-- The value that a text holds, if it holds one. -/
def parse? (text : String) : Option Json := (parse text).toOption

end Switchboard.Json
