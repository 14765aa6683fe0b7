import Switchboard.Input.Field
import Switchboard.Web.Message
/-!
# Routes

What is served where.  The telephone provider calls hooks; tenants manage their calls and flows; prompts and recordings are
fetched as media.
-/
namespace Switchboard.Web

open Input (Checked)

/-- A hook of the telephone provider.  Segments are named by `ν`: by a text in an address, by a number where that was
checked. -/
inductive Hook (ν : Type) where
  | incoming (tenant line : String)
  | incomingStatus (tenant line : String)
  | flow (tenant line : String)
  | dialStatus (tenant line : String)
  | conference (tenant sid : String) (segment : ν)
  | agentStatus (tenant sid : String) (segment : ν)
  | ring
  | segmentRecording (tenant sid : String) (segment : ν)
  | chainRecording (tenant sid : String)
  | voicemail (tenant sid : String)
  | transcription (tenant sid : String)
  | outgoing
  | outgoingStatus
  deriving DecidableEq, Repr

/-- A request to manage the calls and the flows of a tenant. -/
inductive Managed where
  | calls
  | chain (sid : String)
  | transfer (sid : String)
  | endCall (sid : String)
  | resegment (sid : String)
  | resegmentAll
  | flows
  | flow (id : String)
  | createFlow
  | updateFlow (id : String)
  | deleteFlow (id : String)
  | duplicateFlow (id : String)
  | validateFlow
  | assignFlow (line : String)
  | unassignFlow (line : String)
  deriving DecidableEq, Repr

inductive Route where
  | health
  | media (place : List String)
  | hook (h : Hook String)
  | managed (tenant : String) (m : Managed)
  deriving DecidableEq, Repr

def Hook.check {μ ν : Type} (read : μ → Checked ν) : Hook μ → Checked (Hook ν)
  | incoming t l => .ok (incoming t l)
  | incomingStatus t l => .ok (incomingStatus t l)
  | flow t l => .ok (flow t l)
  | dialStatus t l => .ok (dialStatus t l)
  | conference t c s => (read s).map (conference t c)
  | agentStatus t c s => (read s).map (agentStatus t c)
  | ring => .ok ring
  | segmentRecording t c s => (read s).map (segmentRecording t c)
  | chainRecording t c => .ok (chainRecording t c)
  | voicemail t c => .ok (voicemail t c)
  | transcription t c => .ok (transcription t c)
  | outgoing => .ok outgoing
  | outgoingStatus => .ok outgoingStatus

def Managed.isPosted : Managed → Bool
  | transfer _ | createFlow | updateFlow _ | validateFlow | assignFlow _ => true
  | _ => false

namespace Route

/-- The hooks at the parts of a path, each with its method. -/
def hooksAt : List String → List (Method × Hook String)
  | ["incoming", t, l] => [(.post, .incoming t l)]
  | ["incoming", t, l, "status"] => [(.post, .incomingStatus t l)]
  | ["flow", t, l] => [(.post, .flow t l)]
  | ["flow", t, l, "dial-status"] => [(.post, .dialStatus t l)]
  | ["conference", t, c, s] => [(.post, .conference t c s)]
  | ["agent-status", t, c, s] => [(.post, .agentStatus t c s)]
  | ["ring"] => [(.get, .ring)]
  | ["recording", t, c, s] => [(.post, .segmentRecording t c s)]
  | ["recording", t, c] => [(.post, .chainRecording t c)]
  | ["voicemail", t, c] => [(.post, .voicemail t c)]
  | ["transcription", t, c] => [(.post, .transcription t c)]
  | ["outgoing"] => [(.post, .outgoing)]
  | ["outgoing", "status"] => [(.post, .outgoingStatus)]
  | _ => []

/-- What is managed at the parts of a path, each with its method. -/
def managedAt : List String → List (Method × Managed)
  | ["calls"] => [(.get, .calls)]
  | ["calls", "resegment", "all"] => [(.post, .resegmentAll)]
  | ["calls", c] => [(.get, .chain c)]
  | ["calls", c, "transfer"] => [(.post, .transfer c)]
  | ["calls", c, "end"] => [(.post, .endCall c)]
  | ["calls", c, "resegment"] => [(.post, .resegment c)]
  | ["call-flows"] => [(.get, .flows), (.post, .createFlow)]
  | ["call-flows", id] =>
    [(.get, .flow id), (.put, .updateFlow id), (.delete, .deleteFlow id)] ++
      (if id = "validate" then [(.post, .validateFlow)] else [])
  | ["call-flows", id, "duplicate"] => [(.post, .duplicateFlow id)]
  | ["phone-lines", l, "call-flow"] => [(.put, .assignFlow l), (.delete, .unassignFlow l)]
  | _ => []

/-- The routes at the parts of a path, each with its method.  No part may be empty, but for those of a media place. -/
def atPath (parts : List String) : List (Method × Route) :=
  match parts with
  | "media" :: first :: rest => [(.get, .media (first :: rest))]
  | _ =>
    if parts.contains "" then []
    else match parts with
      | ["health"] => [(.get, .health)]
      | "voice" :: rest => (hooksAt rest).map fun p => (p.1, .hook p.2)
      | "api" :: "tenants" :: tenant :: rest => (managedAt rest).map fun p => (p.1, .managed tenant p.2)
      | _ => []

/-- The parts of a path behind its first slash. -/
def partsOf (path : String) : List String := (Text.parts '/' path).drop 1

/-- The route of a request, or why there is none. -/
def find (method : Method) (path : String) : Except Reply Route :=
  match atPath (partsOf path) with
  | [] => .error .notFound
  | routes =>
    match routes.find? fun p => p.1 = method with
    | some p => .ok p.2
    | none => .error .wrongMethod

end Route

end Switchboard.Web
