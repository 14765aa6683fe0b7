import Switchboard.Digest.Keyed
import Switchboard.Input.Number
import Switchboard.Json.Printer
import Switchboard.Json.Reader
import Switchboard.Text.Base64
import Switchboard.Text.Split
import Switchboard.Time.Moment
/-!
# Signed tokens

A token is a header, a set of claims and a keyed digest of both, each in the address form of base 64.  A token is good where
the digest is right and its claims hold: its time has come and is not over, it is meant for nobody in particular, and whom
it is about is a text.
-/
namespace Switchboard.Token

def header : Json := .obj [("alg", .str "HS256"), ("typ", .str "JWT")]

def part (v : Json) : String := Text.Base64.encodeUrl (Digest.utf8 (Json.render Json.compact v))

/-- The signature of the first two parts. -/
def signature (secret signed : String) : String :=
  Text.Base64.encodeUrl (Digest.keyedSha256 (Digest.utf8 secret) (Digest.utf8 signed))

def claims (user tenant tenantUser : Json) : Json :=
  .obj ([("sub", user), ("tenantId", tenant)] ++ (if tenantUser.truthy then [("tenantUserId", tenantUser)] else []))

def sign (secret : String) (payload : Json) : String :=
  let signed := part header ++ "." ++ part payload
  signed ++ "." ++ signature secret signed

/-! ## Checking -/

/-- Why a token is refused. -/
inductive Fault where
  /-- It is no token, it is not signed with the secret, or its claims do not hold. -/
  | invalid
  /-- A time is of a kind that cannot stand for one. -/
  | kind
  deriving DecidableEq, Repr

/-- What is signed, the header, the claims and the signature of a token: all as they are written. -/
def segments? (token : String) : Option (String × String × String × String) :=
  match Text.parts '.' token with
  | header :: rest =>
    match rest.dropLast, rest.getLast? with
    | [], _ => none
    | claims, some mark =>
      let claims := String.intercalate "." claims
      some (header ++ "." ++ claims, header, claims, mark)
    | _, none => none
  | [] => none

def document? (part : String) : Option (List (String × Json)) := do
  let bytes ← Text.Base64.decodeUrl? part
  let text ← String.fromUTF8? ⟨bytes.toArray⟩
  (← Json.parse? text).obj?

/-- The time of a claim, in seconds. -/
def time? (name : String) (claims : List (String × Json)) : Except Fault (Option Int) :=
  match Json.lookup name claims with
  | none => .ok none
  | some v =>
    match v, Input.number? v with
    | _, some n => .ok (some n)
    | .null, _ | .arr _, _ | .obj _, _ => .error .kind
    | .float x, none => .error (if x.isNaN then .invalid else .kind)
    | _, none => .error .invalid

/-- Whether a claim is a text where it is there. -/
def isText (name : String) (claims : List (String × Json)) : Bool :=
  match Json.lookup name claims with
  | some (.str _) | none => true
  | some _ => false

/-- Refuses claims that do not hold at a time. -/
def holdsAt (now : Time.Instant) (claims : List (String × Json)) : Except Fault Unit := do
  let require (fits : Bool) : Except Fault Unit := if fits then .ok () else .error .invalid
  let issued ← time? "iat" claims
  require (issued.all fun t => t * Time.second ≤ now)
  let first ← time? "nbf" claims
  require (first.all fun t => t * Time.second ≤ now)
  let last ← time? "exp" claims
  require (last.all fun t => now < t * Time.second)
  require (!((Json.lookup "aud" claims).getD .null).truthy)
  require (isText "sub" claims && isText "jti" claims)

/-- The claims of a token that is signed with a secret and holds at a time. -/
def verify (secret : String) (now : Time.Instant) (token : String) : Except Fault (List (String × Json)) :=
  match segments? token with
  | none => .error .invalid
  | some (signed, head, payload, mark) =>
    match document? head, document? payload, Text.Base64.decodeUrl? mark with
    | some head, some claims, some mark =>
      let isSigned := (Json.lookup "alg" head).bind Json.str? = some "HS256" && isText "kid" head &&
        mark = Digest.keyedSha256 (Digest.utf8 secret) (Digest.utf8 signed)
      if isSigned then (holdsAt now claims).map fun _ => claims else .error .invalid
    | _, _, _ => .error .invalid

end Switchboard.Token
