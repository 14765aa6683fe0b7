import Switchboard.Store.Basic
import Switchboard.Call.Target
import Switchboard.Text.Blank
/-!
# Users and buyers

Users and buyers belong to the wider platform and are only looked up here.
-/
namespace Switchboard

/-- A user as a member of a tenant. -/
structure Member where
  tenantUserId : String
  tenantId : String
  userId : String
  email : String
  firstName : Option String
  lastName : Option String
  deriving DecidableEq, Repr

def Member.toJson (m : Member) : Json :=
  .obj [("tenant_user_id", .str m.tenantUserId), ("tenant_id", .str m.tenantId), ("user_id", .str m.userId),
    ("email", .str m.email), ("first_name", .ofStr? m.firstName), ("last_name", .ofStr? m.lastName)]

def Member.identity (m : Member) : Identity := ⟨m.tenantId, m.userId, m.tenantUserId⟩

/-- A member's browser client, which a destination leads to. -/
def Member.target (destination : String) (m : Member) : DialTarget :=
  ⟨.client, m.identity.client, destination, some m.identity⟩

namespace Store

/-- Letters in lower case; only those without accents have one. -/
def lower (s : String) : List Char := s.toList.map Char.toLower

def memberOf (db : Store) (r : MemberRow) : Option Member :=
  if !r.isActive then none
  else (db.users.find? fun u => sameId u.id r.userId).map fun u =>
    ⟨r.id, r.tenantId, r.userId, u.email, u.firstName, u.lastName⟩

def activeMembers (db : Store) : List Member := db.members.filterMap (memberOf db)

def memberOfUser (tenant user : String) (db : Store) : Option Member :=
  db.activeMembers.find? fun m => sameId m.tenantId tenant && sameId m.userId user

/-- The active member of a tenant with an email; the white space around it and the case of letters do not count. -/
def memberOfEmail (tenant email : String) (db : Store) : Option Member :=
  db.activeMembers.find? fun m => sameId m.tenantId tenant && lower m.email = lower (Text.trim email)

def memberOfId (id : String) (db : Store) : Option Member := db.activeMembers.find? fun m => sameId m.tenantUserId id

def BuyerRow.hasPhone (full short : String) (b : BuyerRow) : Bool :=
  [b.main, b.secondary, b.mobile].any fun p => p = some full || p = some short

def buyerOfPhone (tenant full short : String) (db : Store) : Option String :=
  (db.buyers.find? fun b => sameId b.tenantId tenant && BuyerRow.hasPhone full short b).map BuyerRow.id

end Store

end Switchboard
