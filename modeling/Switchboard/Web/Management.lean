import Switchboard.Service.Flows
import Switchboard.Service.Transcripts
import Switchboard.Service.Transfer
import Switchboard.Web.Guard
import Switchboard.Web.Limit
import Switchboard.Web.Route
/-!
# Managing calls and flows

A request becomes a command once its values are checked.  A command that fails is answered with what went wrong as far as
the caller can do something about it.
-/
namespace Switchboard.Web

open Input (Checked Issue field required nullable asText asBool asInt asList textWithin)

/-! ## Commands -/

/-- What a tenant asks for. -/
inductive Command where
  | calls (limit offset : Int)
  | chain (sid : String)
  | transfer (sid toUser : String) (reason : Option String)
  | endCall (sid : String)
  | resegment (sid : String)
  | resegmentAll
  | flows
  | flow (id : String)
  | createFlow (draft : FlowDraft)
  | updateFlow (id : String) (draft : FlowDraft)
  | deleteFlow (id : String)
  | duplicateFlow (id : String)
  | validateFlow (steps : Flow.Steps)
  | assignFlow (line : String) (flow : Option String)

namespace Command

/-- How a command is limited: checking a flow changes nothing. -/
def traffic : Command → Traffic
  | calls _ _ | chain _ | flows | flow _ | validateFlow _ => .reading
  | _ => .writing

end Command

/-! ## Reading commands -/

def numberField (name : String) (default : Int) (fs : Fields) : Checked Int :=
  match fs.last? name with
  | none => .ok default
  | some v => ((asInt (.str v)).under (.field name)).under (.field "query")

def posted {α : Type} (read : List (String × Json) → Checked α) (p : Posted) : Checked α :=
  Checked.under (.field "body") <|
    match p with
    | .nothing => .issue .missing .null
    | .text s => .issue .attributesExpected (.str s)
    | .document (.obj fs) => read fs
    | .document v => .issue .attributesExpected v

def flowName (v : Json) : Checked String := textWithin 1 (some 255) v

def flowDescription (v : Json) : Checked (Option String) := nullable (textWithin 0 (some 2000)) v

/-- A value that may be left out: none where it is. -/
def optional {α : Type} (n : Input.Name) (read : Json → Checked α) (fs : List (String × Json)) : Checked (Option α) :=
  field n none (fun v => (read v).map some) fs

def newFlow (fs : List (String × Json)) : Checked FlowDraft :=
  (fun name description isActive records steps =>
      ⟨some (some name), some description, some (some isActive), some (some records), some (.ok steps)⟩)
    <$> required (.one "name") flowName fs
    <*> field (.one "description") none flowDescription fs
    <*> field ⟨"isActive", "is_active"⟩ true asBool fs
    <*> field ⟨"recordInboundCalls", "record_inbound_calls"⟩ false asBool fs
    <*> field (.one "steps") [] Flow.Steps.readPosted fs

/-- What is changed of a flow; steps that are given as nothing stay as they are. -/
def changedFlow (fs : List (String × Json)) : Checked FlowDraft :=
  (fun name description isActive records steps =>
      ⟨name, description, isActive, records, (steps.bind id).map .ok⟩)
    <$> optional (.one "name") (nullable flowName) fs
    <*> optional (.one "description") flowDescription fs
    <*> optional ⟨"isActive", "is_active"⟩ (nullable asBool) fs
    <*> optional ⟨"recordInboundCalls", "record_inbound_calls"⟩ (nullable asBool) fs
    <*> optional (.one "steps") (nullable Flow.Steps.readPosted) fs

/-- To whom a call is transferred, and why. -/
def transferOf (fs : List (String × Json)) : Checked (String × Option String) :=
  Prod.mk <$> required ⟨"toUserId", "to_user_id"⟩ (textWithin 1 none) fs
    <*> field (.one "reason") none (nullable (textWithin 0 (some 500))) fs

def Managed.command (address : Fields) (p : Posted) : Managed → Checked Command
  | calls =>
    (fun limit offset => .calls (min (max limit 1) 200) (max offset 0)) <$> numberField "limit" 50 address
      <*> numberField "offset" 0 address
  | chain sid => .ok (.chain sid)
  | transfer sid => (posted transferOf p).map fun t => .transfer sid t.1 t.2
  | endCall sid => .ok (.endCall sid)
  | resegment sid => .ok (.resegment sid)
  | resegmentAll => .ok .resegmentAll
  | flows => .ok .flows
  | flow id => .ok (.flow id)
  | createFlow => (posted newFlow p).map .createFlow
  | updateFlow id => (posted changedFlow p).map (.updateFlow id)
  | deleteFlow id => .ok (.deleteFlow id)
  | duplicateFlow id => .ok (.duplicateFlow id)
  | validateFlow => (posted (required (.one "steps") Flow.Steps.readPosted) p).map .validateFlow
  | assignFlow line =>
    (posted (field ⟨"callFlowId", "call_flow_id"⟩ none (nullable asText)) p).map (.assignFlow line)
  | unassignFlow line => .ok (.assignFlow line none)

/-! ## Carrying commands out -/

def ownChain (tenant sid : String) : Work (Segment × List Segment) := do
  match ← Work.chain sid none with
  | first :: rest => if first.tenantId = tenant then return (first, first :: rest) else Task.fail (.notFound .call)
  | [] => Task.fail (.notFound .call)

def segmentsJson (ss : List Segment) : Json := .arr (ss.map Segment.toJson)

/-- What is there, or that it is not. -/
def found (thing : Thing) (t : Work (Option Json)) : Work Reply := do
  match ← t with
  | some v => return .ok v
  | none => Task.fail (.notFound thing)

def created (t : Work Json) : Work Reply := do return ⟨201, .document (← t)⟩

def Command.run (tenant : String) (party : Party) : Command → Work Reply
  | calls limit offset => do return .ok (.obj [("calls", segmentsJson (← Work.calls tenant limit offset))])
  | chain sid => do
    let (first, segments) ← ownChain tenant sid
    return .ok (.obj [("originalCallSid", .str first.rootSid), ("segments", segmentsJson segments)])
  | transfer sid toUser reason => do
    let (old, new) ← Work.transfer sid toUser party.member? reason (some tenant)
    return .ok (.obj [("success", .bool true), ("previousSegment", old.toJson), ("segment", new.toJson)])
  | endCall sid => do
    let (first, _) ← ownChain tenant sid
    if ← Work.terminateCall first.rootSid then return .ok (.obj [("success", .bool true)])
    else Task.fail .notEnded
  | resegment sid => do
    discard (ownChain tenant sid)
    return .ok (.obj [("segments", .ofNat (← Work.resegment sid))])
  | resegmentAll => do
    let (cut, failed) ← Work.resegmentTenant tenant
    return .ok (.obj [("processed", .ofNat cut), ("errors", .ofNat failed)])
  | flows => do return .ok (.obj [("callFlows", .arr (← Work.flows tenant))])
  | flow id => found .flow (Work.flow? tenant id)
  | createFlow draft => created (Work.createFlow tenant draft)
  | updateFlow id draft => found .flow (Work.updateFlow tenant id draft)
  | deleteFlow id => do
    Work.deleteFlow tenant id
    return ⟨204, .nothing⟩
  | duplicateFlow id => created (Work.duplicateFlow tenant id)
  | validateFlow steps => do
    discard (Task.ofExcept ((Flow.validate steps).mapError Fault.definition))
    return .ok (.obj [("valid", .bool true)])
  | assignFlow line id => do return .ok (← Work.assignFlow tenant line id)

/-! ## Failures -/

/-- The status under which a fault is told; none where it is not told. -/
def faultStatus? : Fault → Option Nat
  | .notFound _ | .destination _ | .document (.target _) => some 404
  | .fixedColumn _ | .closed _ | .transfer _ | .definition _ | .notEnded | .document _ | .unreadable _ => some 400
  | _ => none

def Reply.ofFault : Fault → Reply
  | .keepsChanging _ _ => error 409 "The call changed while updating, try again"
  | .flowInUse lines =>
    ⟨409, .document (.obj [("error", .ofStr? (Fault.flowInUse lines).message?), ("lineCount", .ofNat lines)])⟩
  | .steps (.defects issues) =>
    ⟨422, .document (.obj [("error", .str "Invalid call flow"), ("details", .arr (issues.map Issue.withValue))])⟩
  | f =>
    match faultStatus? f, f.message? with
    | some status, some message => error status message
    | _, _ => internal

end Switchboard.Web
