import Switchboard.Auth.Token
import Switchboard.Digest.Keyed
import Switchboard.Settings
import Switchboard.Text.Base64
import Switchboard.Web.Message
/-!
# Who may ask

The telephone provider signs its requests: the full address and the fields of its form, in the order of their names.  Who
manages calls and flows shows the key of the service or a token of a user, who may ask for the own tenant only.  Outside
production the provider's part can be played from the same machine without a signature.
-/
namespace Switchboard.Web

open Time (Instant)

/-! ## Signatures -/

namespace Signature

/-- What is signed: the address, then every field in the order of the names. -/
def subject (address : String) (fs : Fields) : String :=
  let sorted := fs.distinct.mergeSort fun a b => decide (a.1 ≤ b.1)
  address ++ String.join (sorted.map fun f => f.1 ++ f.2)

def sign (secret address : String) (fs : Fields) : String :=
  Text.Base64.encode (Digest.keyedSha1 (Digest.utf8 secret) (Digest.utf8 (subject address fs)))

/-- The name of a host and the port, where one is given. -/
def splitPort (host : String) : String × Option String :=
  match Text.splitFirst ':' host.toList with
  | (name, some port) =>
    if port.any Char.isDigit && port.any (· != '0') then (String.ofList name, some (String.ofList port)) else (host, none)
  | (_, none) => (host, none)

/-- The hosts that a signature may have been made for: without a port and with one. -/
def hosts (scheme host : String) : List String :=
  match splitPort host with
  | (name, some _) => [name, host]
  | (_, none) => [host, host ++ (if scheme = "https" then ":443" else ":80")]

def isGood (secret scheme host path : String) (fs : Fields) (signature : String) : Bool :=
  (hosts scheme host).any fun h => sign secret (scheme ++ "://" ++ h ++ path) fs = signature

end Signature

/-- The path of a request with its query, as it stands in the address. -/
def Request.place (r : Request) : String := r.path ++ (if r.query = "" then "" else "?" ++ r.query)

/-- The scheme and the host that the provider called; a proxy in between hands them on. -/
def Request.origin (r : Request) : String × String :=
  ((r.header? "x-forwarded-proto").getD "http", (r.header? "x-forwarded-host").getD (r.header "host"))

def isLocal (host : String) : Bool :=
  Text.holds "localhost".toList host.toList || Text.holds "127.0.0.1".toList host.toList

/-- Turns a hook away that the provider did not sign. -/
def checkSignature (s : Settings) (r : Request) : Except Reply Unit :=
  if s.authToken = "" then .error (.detail 500 "Server configuration error")
  else
    let (scheme, host) := r.origin
    let signature := r.header "x-twilio-signature"
    let fs := if r.method = .post then r.form else []
    if isLocal host && signature = "" && !s.isProduction then .ok ()
    else if Signature.isGood s.authToken scheme host r.place fs signature then .ok ()
    else .error (.detail 403 "Invalid Twilio signature")

/-! ## Parties -/

/-- Who asks. -/
inductive Party where
  /-- A service, for any tenant. -/
  | service
  /-- A user, with the tenant and the membership that the token names. -/
  | user (tenant member : Option String)
  deriving DecidableEq, Repr

namespace Party

/-- Whether a party may ask for a tenant. -/
def mayAskFor (tenant : String) : Party → Bool
  | service => true
  | user t _ => t = some tenant

def member? : Party → Option String
  | service => none
  | user _ m => m

def ofClaims (claims : List (String × Json)) : Party :=
  user ((Json.lookup "tenantId" claims).bind Json.str?) ((Json.lookup "tenantUserId" claims).bind Json.str?)

end Party

/-- Who asks, by a key or a token. -/
def authenticate (s : Settings) (now : Instant) (r : Request) : Except Reply Party :=
  let key := r.header "x-api-key"
  if key ≠ "" ∧ key = s.apiKey then .ok .service
  else
    match Text.stripFront? "Bearer ".toList (r.header "authorization").toList with
    | none => .error (.detail 401 "Authentication required")
    | some token =>
      match Token.verify s.jwtSecret now (String.ofList token) with
      | .ok claims => .ok (.ofClaims claims)
      | .error .invalid => .error (.detail 401 "Invalid token")
      | .error .kind => .error .internal

def authorize (s : Settings) (now : Instant) (tenant : String) (r : Request) : Except Reply Party :=
  match authenticate s now r with
  | .error reply => .error reply
  | .ok party => if party.mayAskFor tenant then .ok party else .error (.detail 403 "Access denied to this tenant")

end Switchboard.Web
