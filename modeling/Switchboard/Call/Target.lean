import Switchboard.Json.Basic
import Switchboard.Phone
import Switchboard.Text.Blank
/-!
# Destinations

A flow names whom to dial as a user id, an email or a phone number.  A dial target is the address that a destination
resolves to, with the member to whom an answer on that leg is attributed.
-/
namespace Switchboard

/-- What kind of destination a text is. -/
inductive DestinationKind where
  | userId | email | phone
  deriving DecidableEq, Repr

def DestinationKind.name : DestinationKind → String
  | userId => "user_id"
  | email => "email"
  | phone => "phone"

structure Destination where
  raw : String
  kind : DestinationKind
  deriving DecidableEq, Repr

namespace Destination

def isHex (c : Char) : Bool := ('0' ≤ c && c ≤ '9') || ('a' ≤ c && c ≤ 'f') || ('A' ≤ c && c ≤ 'F')

/-- Whether characters are groups of hexadecimal digits of given lengths with dashes between them. -/
def isGroups : List Nat → List Char → Bool
  | [], cs => cs.isEmpty
  | [n], cs => cs.length = n && cs.all isHex
  | n :: rest, cs => (cs.take n).length = n && (cs.take n).all isHex &&
      match cs.drop n with
      | '-' :: more => isGroups rest more
      | _ => false

/-- Whether a text is a user id: hexadecimal digits in groups of 8, 4, 4, 4 and 12. -/
def isUserId (s : String) : Bool := isGroups [8, 4, 4, 4, 12] s.toList

/-- What a destination is; the white space around it does not count. -/
def classify (destination : Option String) : Destination :=
  let raw := Text.trim (destination.getD "")
  if isUserId raw then ⟨raw, .userId⟩
  else if raw.toList.contains '@' then ⟨raw, .email⟩
  else ⟨raw, .phone⟩

end Destination

/-- The member of a tenant to whom a leg belongs. -/
structure Identity where
  tenantId : String
  userId : String
  tenantUserId : String
  deriving DecidableEq, Repr

namespace Identity

def client (i : Identity) : String := i.tenantId ++ ":" ++ i.userId

def toJson (i : Identity) : Json :=
  .obj [("tenant_id", .str i.tenantId), ("user_id", .str i.userId), ("tenant_user_id", .str i.tenantUserId)]

end Identity

/-- How a target is reached. -/
inductive TargetKind where
  | client
  | phone
  /-- A kind that is stored but not known; it is dialed like a phone. -/
  | other (name : String)
  deriving DecidableEq, Repr

namespace TargetKind

def name : TargetKind → String
  | client => "client"
  | phone => "phone"
  | other n => n

def ofName (s : String) : TargetKind := if s = "client" then client else if s = "phone" then phone else other s

end TargetKind

/-- Where to place an outbound leg. -/
structure DialTarget where
  kind : TargetKind
  address : String
  destination : String
  identity : Option Identity
  deriving DecidableEq, Repr

namespace DialTarget

def toJson (t : DialTarget) : Json :=
  .obj [("kind", .str t.kind.name), ("address", .str t.address), ("destination", .str t.destination),
    ("identity", (t.identity.map Identity.toJson).getD .null)]

/-- Why a stored target cannot be read. -/
inductive Fault where
  /-- A field is not there. -/
  | missing (field : String)
  /-- The identity is not made of exactly its three fields. -/
  | identity
  deriving DecidableEq, Repr

def storedText (field : String) (v : Json) : Except Fault String :=
  match v with
  | .str s => .ok s
  | _ => .error (.missing field)

/-- The identity of a stored target: exactly its three fields, or nothing. -/
def readIdentity (v : Json) : Except Fault (Option Identity) :=
  if !v.truthy then .ok none
  else match v with
    | .obj fs =>
      match Json.lookup "tenant_id" fs, Json.lookup "user_id" fs, Json.lookup "tenant_user_id" fs with
      | some (.str t), some (.str u), some (.str m) =>
        if fs.length = 3 then .ok (some ⟨t, u, m⟩) else .error .identity
      | _, _, _ => .error .identity
    | _ => .error .identity

/-- A stored target; without a destination of its own the address stands for it. -/
def ofFields (fs : List (String × Json)) : Except Fault DialTarget := do
  let kind ← storedText "kind" ((Json.lookup "kind" fs).getD .null)
  let address ← storedText "address" ((Json.lookup "address" fs).getD .null)
  let destination ← match Json.lookup "destination" fs with
    | some v => storedText "destination" v
    | none => .ok address
  let identity ← readIdentity ((Json.lookup "identity" fs).getD .null)
  return ⟨.ofName kind, address, destination, identity⟩

def read (v : Json) : Except Fault DialTarget :=
  match v with
  | .obj fs => ofFields fs
  | _ => .error (.missing "kind")

end DialTarget

end Switchboard
