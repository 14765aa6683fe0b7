import Switchboard.Store.Basic
/-!
# Stored flows and lines

A tenant's flows, and the phone lines that run them.  A line whose flow is deleted runs none.
-/
namespace Switchboard

open Time (Moment Instant)

def FlowRow.columns (f : FlowRow) : List (String × Json) :=
  [("id", .str f.id), ("tenant_id", .str f.tenantId), ("name", .str f.name), ("description", .ofStr? f.description),
   ("is_active", .bool f.isActive), ("record_inbound_calls", .bool f.records), ("steps", (f.steps.toOption).getD .null),
   ("created_at", .str f.createdAt.text), ("updated_at", .str f.updatedAt.text)]

def LineRow.columns (l : LineRow) : List (String × Json) :=
  [("id", .str l.id), ("tenant_id", .str l.tenantId), ("phone_number", .str l.phoneNumber),
   ("friendly_name", .ofStr? l.friendlyName), ("is_active", .bool l.isActive), ("is_primary", .bool l.isPrimary),
   ("call_flow_id", .ofStr? l.flowId)]

namespace Store

/-! ## Flows -/

def flowRow (tenant id : String) (db : Store) : Option FlowRow :=
  db.flows.find? fun f => sameId f.id id && sameId f.tenantId tenant

def LineRow.runs (flow : String) (l : LineRow) : Bool := l.flowId.any (sameId flow)

def lineCount (flow : String) (db : Store) : Nat := db.lines.countP (LineRow.runs flow)

/-- The flows of a tenant, the last one first, with the number of lines that run each. -/
def flowRows (tenant : String) (db : Store) : List (FlowRow × Nat) :=
  ((db.flows.filter fun f => sameId f.tenantId tenant).mergeSort fun a b =>
    decide (b.createdAt.instant ≤ a.createdAt.instant)).map fun f => (f, db.lineCount f.id)

def insertFlow (f : FlowRow) (db : Store) : FlowRow × Store :=
  let (id, db) := db.nextId
  let f := { f with id }
  (f, { db with flows := db.flows ++ [f] })

/-- New values of some columns of a flow. -/
structure FlowChange where
  name : Option (Option String)
  description : Option (Option String)
  isActive : Option (Option Bool)
  records : Option (Option Bool)
  steps : Option Json

namespace FlowChange

def isEmpty (c : FlowChange) : Bool :=
  c.name.isNone && c.description.isNone && c.isActive.isNone && c.records.isNone && c.steps.isNone

def removesNeeded (c : FlowChange) : Bool := c.name = some none || c.isActive = some none || c.records = some none

def apply (c : FlowChange) (now : Instant) (f : FlowRow) : FlowRow :=
  { f with
    name := (c.name.bind id).getD f.name
    description := c.description.getD f.description
    isActive := (c.isActive.bind id).getD f.isActive
    records := (c.records.bind id).getD f.records
    steps := match c.steps with
      | some v => .ok v
      | none => f.steps
    updatedAt := .utc now }

end FlowChange

/-- Changes a flow of a tenant; the row that was changed. -/
def changeFlow (tenant id : String) (c : FlowChange) (now : Instant) (db : Store) :
    Except StoreFault (Option FlowRow × Store) :=
  match db.flowRow tenant id with
  | none => .ok (none, db)
  | some f =>
    if c.removesNeeded then .error .missing
    else
      let change (g : FlowRow) : FlowRow := if sameId g.id id && sameId g.tenantId tenant then c.apply now g else g
      .ok (some (c.apply now f), { db with flows := db.flows.map change })

/-- Deletes a flow of a tenant.  Lines that run it run none. -/
def deleteFlow (tenant id : String) (db : Store) : Store :=
  match db.flowRow tenant id with
  | none => db
  | some _ => { db with
      flows := db.flows.filter fun g => !(sameId g.id id && sameId g.tenantId tenant)
      lines := db.lines.map fun l => if LineRow.runs id l then { l with flowId := none } else l }

/-! ## Lines -/

/-- Lets a line of a tenant run a flow, or none; the row that was changed. -/
def assignFlow (tenant line : String) (flow : Option String) (db : Store) :
    Except StoreFault (Option LineRow × Store) :=
  match db.lines.find? fun l => sameId l.id line && sameId l.tenantId tenant with
  | none => .ok (none, db)
  | some l =>
    if flow.all (fun id => db.flows.any fun f => sameId f.id id) then
      let change (m : LineRow) : LineRow :=
        if sameId m.id line && sameId m.tenantId tenant then { m with flowId := flow } else m
      .ok (some { l with flowId := flow }, { db with lines := db.lines.map change })
    else .error .orphan

def activeLine (line : String) (db : Store) : Option (LineRow × Option FlowRow) :=
  (db.lines.find? fun l => sameId l.id line && l.isActive).map fun l =>
    (l, l.flowId.bind fun id => db.flows.find? fun f => sameId f.id id)

/-- Whether a line comes before another as a tenant's number: primary lines first, then by number. -/
def LineRow.before (a b : LineRow) : Bool :=
  if a.isPrimary = b.isPrimary then decide (a.phoneNumber ≤ b.phoneNumber) else a.isPrimary

def primaryNumber (tenant : String) (db : Store) : Option String :=
  ((db.lines.filter fun l => sameId l.tenantId tenant && l.isActive).mergeSort LineRow.before).head?.map
    LineRow.phoneNumber

end Store

end Switchboard
