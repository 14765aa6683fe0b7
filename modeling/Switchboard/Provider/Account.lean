import Switchboard.Digest.Words
import Switchboard.Provider.Request
import Switchboard.Text.Base64
import Switchboard.Text.Split
/-!
# The account with the telephone provider

Requests need an account.  A refusal is reported with what was asked for.
-/
namespace Switchboard.Provider

structure Account where
  sid : String
  token : String
  deriving DecidableEq, Repr

/-- An account of its own, each part of which falls back on the configured one. -/
def Account.orElse (own configured : Account) : Account where
  sid := if own.sid = "" then configured.sid else own.sid
  token := if own.token = "" then configured.token else own.token

def Account.isConfigured (a : Account) : Bool := a.sid ≠ "" && a.token ≠ ""

/-- What is asked of a telephone provider. -/
inductive Command where
  | dial (leg : Leg)
  | terminate (sid : String)
  | redirect (sid document : String)
  deriving DecidableEq, Repr

inductive Fault where
  | notConfigured
  | refused (command : Command) (reason : String)
  deriving DecidableEq, Repr

def Command.subject : Command → String
  | dial leg => "Dial to " ++ leg.destination
  | terminate sid => "Terminate " ++ sid
  | redirect sid _ => "Redirect " ++ sid

def Command.toJson : Command → Json
  | dial leg =>
    .obj [("create", .obj [("to", .str leg.destination), ("from_", .str leg.callerId), ("twiml", .str leg.document),
      ("timeout", .int leg.timeout), ("status_callback", .str leg.statusCallback),
      ("status_callback_event", .arr (legEvents.map .str)), ("status_callback_method", .str "POST")])]
  | terminate sid => .obj [("update", .str sid), ("status", .str "completed")]
  | redirect sid document => .obj [("update", .str sid), ("twiml", .str document)]

def Fault.message : Fault → String
  | notConfigured => "Twilio not configured"
  | refused command reason => command.subject ++ " failed: " ++ reason

/-- The outcome of a command, given what the provider objects to. -/
def Account.submit (a : Account) (objection : Option String) (command : Command) : Except Fault Unit :=
  if !a.isConfigured then .error .notConfigured
  else match objection with
    | some reason => .error (.refused command reason)
    | none => .ok ()

/-- What is sent for commands: the account with the first one, then each command. -/
def Account.sent (a : Account) (commands : List Command) : List Json :=
  if a.isConfigured && !commands.isEmpty then
    .obj [("client", .arr [.str a.sid, .str a.token])] :: commands.map Command.toJson
  else []

/-! ## Downloads -/

def Account.authorization (a : Account) : String :=
  "Basic " ++ Text.Base64.encode (Digest.utf8 (a.sid ++ ":" ++ a.token))

def recordingAddress (address : String) : String :=
  if ".mp3".toList.isSuffixOf address.toList then address else address ++ ".mp3"

/-- An answer to a download. -/
structure Reply where
  status : Int
  body : String
  /-- Where a redirect leads. -/
  location : Option String

/-- What is sent for a download: the address and whether the account is shown. -/
structure Ask where
  address : String
  shown : Bool
  deriving DecidableEq, Repr

/-- The part of an address up to its path: scheme and host. -/
def origin (address : String) : List Char :=
  let cs := address.toList
  let scheme := Text.before "://".toList cs
  scheme ++ (cs.drop scheme.length).take 3 ++ ((cs.drop (scheme.length + 3)).takeWhile fun c => c ≠ '/' && c ≠ '?' && c ≠ '#')

/-- The folder of an address: all before the last part of its path. -/
def folder (address : String) : List Char :=
  let front := origin address
  let path := ((address.toList.drop front.length).takeWhile fun c => c ≠ '?' && c ≠ '#')
  front ++ if path.contains '/' then (path.reverse.dropWhile (· ≠ '/')).reverse else ['/']

/-- The address that a redirect leads to: a whole address, one on the same host, or one in the same folder. -/
def target (address location : String) : String :=
  let cs := location.toList
  if Text.holds "://".toList cs then location
  else String.ofList ((if cs.head? = some '/' then origin address else folder address) ++ cs)

def isRedirect (status : Int) : Bool := [301, 302, 303, 307, 308].contains status

/-- A download along its redirects, each of which takes the next reply: what was sent, and the body of a final reply that
says that all is well.  The account is not shown to another host. -/
def download (ask : Ask) : List Reply → List Ask × Option String
  | [] => ([ask], none)
  | r :: rest =>
    match r.location with
    | some location =>
      if isRedirect r.status then
        let next := target ask.address location
        let (asks, body) := download ⟨next, ask.shown && origin next = origin ask.address⟩ rest
        (ask :: asks, body)
      else ([ask], if 200 ≤ r.status && r.status < 300 then some r.body else none)
    | none => ([ask], if 200 ≤ r.status && r.status < 300 then some r.body else none)

end Switchboard.Provider
