import Switchboard.Digest.Words
/-!
# Base 64

Three bytes as four characters.  The padded form uses `+` and `/`, the form for addresses `-` and `_` without padding.
-/
namespace Switchboard.Text.Base64

open Digest (Bytes)

def letter (forUrl : Bool) (n : Nat) : Char :=
  if n < 26 then Char.ofNat (65 + n)
  else if n < 52 then Char.ofNat (71 + n)
  else if n < 62 then Char.ofNat (n - 4)
  else if n = 62 then (if forUrl then '-' else '+')
  else (if forUrl then '_' else '/')

/-- Encodes bytes; the address form leaves the padding out. -/
def encodeWith (forUrl : Bool) : Bytes → List Char
  | a :: b :: c :: rest =>
    let n := a.toNat * 65536 + b.toNat * 256 + c.toNat
    letter forUrl (n / 262144) :: letter forUrl (n / 4096 % 64) :: letter forUrl (n / 64 % 64) :: letter forUrl (n % 64) ::
      encodeWith forUrl rest
  | [a, b] =>
    let n := a.toNat * 1024 + b.toNat * 4
    [letter forUrl (n / 4096), letter forUrl (n / 64 % 64), letter forUrl (n % 64)] ++ (if forUrl then [] else ['='])
  | [a] =>
    let n := a.toNat * 16
    [letter forUrl (n / 64), letter forUrl (n % 64)] ++ (if forUrl then [] else ['=', '='])
  | [] => []

def encode (bytes : Bytes) : String := String.ofList (encodeWith false bytes)

def encodeUrl (bytes : Bytes) : String := String.ofList (encodeWith true bytes)

def urlValue? (c : Char) : Option Nat :=
  if 'A' ≤ c ∧ c ≤ 'Z' then some (c.toNat - 65)
  else if 'a' ≤ c ∧ c ≤ 'z' then some (c.toNat - 71)
  else if '0' ≤ c ∧ c ≤ '9' then some (c.toNat + 4)
  else if c = '-' ∨ c = '+' then some 62
  else if c = '_' ∨ c = '/' then some 63
  else none

/-- The bytes of groups of four values; a last group of two or three gives one or two bytes, of one is refused. -/
def groupBytes? : List Nat → Option Bytes
  | a :: b :: c :: d :: rest => do
    let n := a * 262144 + b * 4096 + c * 64 + d
    let more ← groupBytes? rest
    return (n / 65536).toUInt8 :: (n / 256 % 256).toUInt8 :: (n % 256).toUInt8 :: more
  | [a, b, c] =>
    let n := a * 4096 + b * 64 + c
    some [(n / 1024).toUInt8, (n / 4 % 256).toUInt8]
  | [a, b] => some [((a * 64 + b) / 16).toUInt8]
  | [_] => none
  | [] => some []

/-- Decodes the address form: characters outside the alphabet are passed over, and the first padding ends the text. -/
def decodeUrl? (s : String) : Option Bytes :=
  groupBytes? ((s.toList.takeWhile (· != '=')).filterMap urlValue?)

end Switchboard.Text.Base64
