import Switchboard.Flow.Printer
import Switchboard.Service.Speech
import Switchboard.Store.Flows
/-!
# Managing flows

Before a flow is stored its steps are checked and its prompts read aloud.  A flow that a line runs cannot be deleted.
-/
namespace Switchboard

/-- What a flow is made or changed with.  A value that is given may still be none. -/
structure FlowDraft where
  name : Option (Option String)
  description : Option (Option String)
  isActive : Option (Option Bool)
  records : Option (Option Bool)
  steps : Option (Except Flow.ReadFault Flow.Steps)

/-- A phone line with the flow that it runs. -/
structure LineFlow where
  lineId : String
  tenantId : String
  phoneNumber : String
  flowId : Option String
  flowName : Option String
  isActive : Bool
  records : Bool
  steps : Flow.Steps

def LineFlow.toJson (l : LineFlow) : Json :=
  .obj [("line_id", .str l.lineId), ("tenant_id", .str l.tenantId), ("phone_number", .str l.phoneNumber),
    ("flow_id", .ofStr? l.flowId), ("flow_name", .ofStr? l.flowName), ("is_active", .bool l.isActive),
    ("record_inbound_calls", .bool l.records), ("steps", l.steps.toJson)]

namespace Work

def storedSteps (f : FlowRow) : Work Json :=
  Task.ofExcept (f.steps.mapError Fault.unreadable)

/-- The fields of a flow as they are shown; steps that stand for nothing are an empty list. -/
def flowFields (f : FlowRow) : Work (List (String × Json)) := do
  let steps ← storedSteps f
  return { f with steps := .ok (if steps.truthy then steps else .arr []) }.columns

def showFlow (f : FlowRow) : Work Json := do return .obj (← flowFields f)

def showFlow? : Option FlowRow → Work (Option Json)
  | none => return none
  | some f => do return some (← showFlow f)

def prepareSteps (steps : Except Flow.ReadFault Flow.Steps) : Work Flow.Steps := do
  let steps ← Task.ofExcept (steps.mapError Fault.steps)
  let _ ← Task.ofExcept ((Flow.validate steps).mapError Fault.definition)
  return (← Flow.attachAudio synthesizePrompt steps).1

/-- The flows of a tenant, the last one first. -/
def flows (tenant : String) : Work (List Json) := do
  (← query (Store.flowRows tenant)).mapM fun p => do
    return .obj ((← flowFields p.1) ++ [("line_count", .ofNat p.2)])

def flow? (tenant id : String) : Work (Option Json) := do showFlow? (← query (Store.flowRow tenant id))

def hasFlow (tenant id : String) : Work Bool := do return (← flow? tenant id).isSome

def createFlow (tenant : String) (d : FlowDraft) : Work Json := do
  let steps ← prepareSteps (d.steps.getD (.ok []))
  let now ← now
  match d.name with
  | none => Task.fail .nameless
  | some name =>
    let row ← statement fun db =>
      match name, d.isActive.getD (some true), d.records.getD (some false) with
      | some name, some isActive, some records =>
        .ok (db.insertFlow ⟨"", tenant, name, d.description.getD none, isActive, records, .ok steps.toJson, .utc now, .utc now⟩)
      | _, _, _ => .error .missing
    showFlow row

def updateFlow (tenant id : String) (d : FlowDraft) : Work (Option Json) := do
  match ← flow? tenant id with
  | none => return none
  | some existing => do
    let steps ← match d.steps with
      | none => pure none
      | some s => do pure (some (← prepareSteps s).toJson)
    let change : Store.FlowChange := ⟨d.name, d.description, d.isActive, d.records, steps⟩
    if change.isEmpty then return some existing
    else
      let now ← now
      showFlow? (← statement (Store.changeFlow tenant id change now))

def deleteFlow (tenant id : String) : Work Unit := do
  if !(← hasFlow tenant id) then Task.fail (.notFound .flow)
  else
    let lines ← query (Store.lineCount id)
    if lines ≠ 0 then Task.fail (.flowInUse lines)
    else statement fun db => .ok ((), db.deleteFlow tenant id)

/-- Copies a flow; the copy is not active. -/
def duplicateFlow (tenant id : String) : Work Json := do
  match ← query (Store.flowRow tenant id) with
  | none => Task.fail (.notFound .flow)
  | some f => do
    let steps ← storedSteps f
    let now ← now
    let row ← statement fun db =>
      .ok (db.insertFlow { f with
        tenantId := tenant, name := f.name ++ " (Copy)", isActive := false
        steps := .ok (if steps.truthy then steps else .arr []), createdAt := .utc now, updatedAt := .utc now })
    showFlow row

/-- Lets a line run a flow, or none. -/
def assignFlow (tenant line : String) (flow : Option String) : Work Json := do
  let known ← match flow with
    | none => pure true
    | some id => hasFlow tenant id
  if !known then Task.fail (.notFound .flow)
  else
    match ← statement (Store.assignFlow tenant line flow) with
    | none => Task.fail (.notFound .line)
    | some l => return .obj l.columns

def lineFlow? (line : String) : Work (Option LineFlow) := do
  match ← query (Store.activeLine line) with
  | none => return none
  | some (l, none) => return some ⟨l.id, l.tenantId, l.phoneNumber, none, none, false, false, []⟩
  | some (l, some f) => do
    let steps ← Task.ofExcept ((Flow.Steps.read (← storedSteps f)).mapError Fault.steps)
    return some ⟨l.id, l.tenantId, l.phoneNumber, some f.id, some f.name, f.isActive, f.records, steps⟩

def primaryNumber (tenant : String) : Work (Option String) := query (Store.primaryNumber tenant)

end Work

end Switchboard
