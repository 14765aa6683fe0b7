import Switchboard.Text.Digit
import Switchboard.Text.Split
/-!
# Masking

What may be told in a message about a phone number, an address or a destination.
-/
namespace Switchboard.Mask

/-- The last four digits behind stars. -/
def phone (p : Option String) : String :=
  match p with
  | none => "[no-phone]"
  | some p =>
    if p = "" then "[no-phone]"
    else
      let ds := Text.digits p
      if ds.length < 4 then "****" else "***" ++ String.ofList (ds.drop (ds.length - 4))

/-- The first character of the name and the whole domain. -/
def email (e : Option String) : String :=
  match Text.splitFirst '@' (e.getD "").toList with
  | (_, none) => "[no-email]"
  | (name, some domain) =>
    (match name with
      | [] => "*"
      | c :: _ => c.toString) ++ "***@" ++ String.ofList domain

/-- Emails and phone numbers are masked, client addresses and user ids are not. -/
def destination (d : Option String) : String :=
  match d with
  | none => "[none]"
  | some d =>
    let cs := d.toList
    if d = "" then "[none]"
    else if cs.contains '@' then email (some d)
    else if (Text.stripFront? "client:".toList cs).isSome || (cs.length = 36 && cs.count '-' = 4) then d
    else phone (some d)

/-- At most `most` characters and an ellipsis; a negative limit cuts from the end. -/
def truncate (text : Option String) (most : Int) : String :=
  let cs := (text.getD "").toList
  if cs.isEmpty then ""
  else if (cs.length : Int) ≤ most then String.ofList cs
  else
    let keep := if most ≥ 0 then most.toNat else (cs.length + most).toNat
    String.ofList (cs.take keep) ++ "..."

end Switchboard.Mask
