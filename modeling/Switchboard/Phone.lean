import Switchboard.Text.Digit
/-!
# Phone numbers

Numbers are kept in the international form: a plus sign, a digit that is not zero, at most fifteen digits.  Of what was
typed, the digits are taken, of whatever script.
-/
namespace Switchboard.Phone

/-- The international form of a number's digits, with or without a plus sign in front of the number: ten digits get the
country code 1, eleven with that code and more of them behind a plus sign are taken as they are.  Others of eleven and more
are taken to be foreign ones, and fewer are no number. -/
def ofDigits? (plus : Bool) (ds : List Char) : Option String :=
  let asGiven := some (String.ofList ('+' :: ds))
  if ds = [] then none
  else if ds.length = 10 then some (String.ofList ('+' :: '1' :: ds))
  else if ds.length = 11 ∧ ds.head? = some '1' then asGiven
  else if 11 < ds.length ∧ plus then asGiven
  else if 11 ≤ ds.length then asGiven
  else none

def normalize? (phone : Option String) : Option String :=
  match phone with
  | none => none
  | some p => ofDigits? (p.toList.head? = some '+') (Text.digits p)

/-- Whether a text is in the international form; one line end may follow it. -/
def isInternational (phone : String) : Bool :=
  match phone.toList with
  | '+' :: c :: rest =>
    let digits := if rest.getLast? = some '\n' then rest.dropLast else rest
    '1' ≤ c && c ≤ '9' && 1 ≤ digits.length && digits.length ≤ 14 && digits.all Text.isDigit
  | _ => false

/-- The last ten digits. -/
def lastTen (phone : Option String) : String :=
  let ds := Text.digits (phone.getD "")
  String.ofList (ds.drop (ds.length - 10))

def same (a b : Option String) : Bool :=
  match normalize? a with
  | none => false
  | some n => normalize? b = some n

end Switchboard.Phone
