import Switchboard.Json.Basic
import Switchboard.Decimal
/-!
# Printing JSON

One printer serves the stored documents and the tokens; a `Style` says how it separates.  Stored documents put a blank
after each separator, tokens leave the blanks out.  Both write every character outside ASCII as an escape.
-/
namespace Switchboard.Json

/-- How a value is written. -/
structure Style where
  /-- Between two items. -/
  comma : String
  /-- Between a key and its value. -/
  colon : String

/-- Stored documents: blanks after separators. -/
def stored : Style := ⟨", ", ": "⟩

/-- Tokens: no blanks. -/
def compact : Style := ⟨",", ":"⟩

def hexDigit (n : Nat) : Char :=
  if n < 10 then Char.ofNat (48 + n) else Char.ofNat (87 + n)

/-- `\u` and four hexadecimal digits. -/
def escapeUnit (n : Nat) : String :=
  String.ofList ['\\', 'u', hexDigit (n / 4096 % 16), hexDigit (n / 256 % 16), hexDigit (n / 16 % 16), hexDigit (n % 16)]

/-- One character of a string literal; characters beyond the basic plane take two escapes. -/
def escapeChar (c : Char) : String :=
  if c = '"' then "\\\""
  else if c = '\\' then "\\\\"
  else if c = '\n' then "\\n"
  else if c = '\r' then "\\r"
  else if c = '\t' then "\\t"
  else if c.toNat = 8 then "\\b"
  else if c.toNat = 12 then "\\f"
  else if c.toNat < 32 then escapeUnit c.toNat
  else if c.toNat < 128 then c.toString
  else if c.toNat < 0x10000 then escapeUnit c.toNat
  else
    let n := c.toNat - 0x10000
    escapeUnit (0xD800 + n / 1024) ++ escapeUnit (0xDC00 + n % 1024)

def quote (s : String) : String :=
  s.toList.foldl (fun acc c => acc ++ escapeChar c) "\"" ++ "\""

mutual

def render (st : Style) : Json → String
  | .null => "null"
  | .bool b => if b then "true" else "false"
  | .int n => toString n
  | .float x => Decimal.ofFloat x
  | .str s => quote s
  | .arr [] => "[]"
  | .arr (x :: xs) => renderItems st ("[" ++ render st x) xs
  | .obj [] => "\x7b\x7d"
  | .obj ((k, v) :: fs) => renderFields st ("\x7b" ++ quote k ++ st.colon ++ render st v) fs

def renderItems (st : Style) (acc : String) : List Json → String
  | [] => acc ++ "]"
  | x :: xs => renderItems st (acc ++ st.comma ++ render st x) xs

def renderFields (st : Style) (acc : String) : List (String × Json) → String
  | [] => acc ++ "\x7d"
  | (k, v) :: fs => renderFields st (acc ++ st.comma ++ quote k ++ st.colon ++ render st v) fs

end

def toText (v : Json) : String := render stored v

end Switchboard.Json
