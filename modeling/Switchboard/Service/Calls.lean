import Switchboard.Service.Directory
/-!
# Segments under concurrent callbacks

Callbacks about one segment come at the same time.  A change of a segment reads it, computes the changed segment and writes
it back only if the row still has the revision that was read; otherwise it starts again, five times at most.  So each
change acts on the segment as it is when the change is written.  A change that leaves the segment as it is writes nothing.
-/
namespace Switchboard.Work

def readRow (r : CallRow) : Work Segment := Task.ofExcept (r.read.mapError Fault.document)

def readRow? : Option CallRow → Work (Option Segment)
  | some r => do return some (← readRow r)
  | none => return none

/-! ## Reading -/

/-- A segment of the call that an id belongs to, within a tenant where one is given. -/
def segment? (sid : String) (number : Int) (tenant : Option String) : Work (Option Segment) := do
  let row ← statement fun db =>
    if Store.fits number then .ok (db.segmentRow (Naming.root sid) number tenant, db) else .error .range
  readRow? row

def segmentOfSid? (sid : String) : Work (Option Segment) := do readRow? (← query (Store.rowOfSid sid))

def segmentOfId? (tenant id : String) : Work (Option Segment) := do readRow? (← query (Store.rowOfId id (some tenant)))

/-- The segments of a call in order. -/
def chain (sid : String) (tenant : Option String) : Work (List Segment) := do
  (← query (Store.chainRows (Naming.root sid) tenant)).mapM readRow

/-- The newest segment of a call that was not handed on. -/
def latest? (sid : String) (tenant : Option String) : Work (Option Segment) := do
  let s ← readRow? (← query (Store.latestRow (Naming.root sid) tenant))
  Task.interrupt .newest
  return s

def segmentOfLeg? (leg : String) : Work (Option Segment) := do readRow? (← query (Store.rowOfLeg leg))

/-- The calls of a tenant, the last one first. -/
def calls (tenant : String) (limit offset : Int) : Work (List Segment) := do
  let rows ← statement fun db => (db.callRows tenant limit offset).map fun rows => (rows, db)
  rows.mapM readRow

/-! ## Writing -/

/-- A call that begins. -/
structure NewCall where
  tenant : String
  sid : String
  direction : String
  fromNumber : Option String
  toNumber : Option String
  status : Status
  callerId : Option String

/-- The first segment of a call. -/
def NewCall.segment (c : NewCall) (buyer : Option String) (now : Time.Instant) : Segment :=
  { Segment.opened c.tenant c.sid c.sid 0 c.direction c.status with
    fromNumber := c.fromNumber
    toNumber := c.toNumber
    startedAt := some (.utc now)
    conferenceName := some (Naming.conference c.sid 0)
    buyerId := buyer
    callerId := c.callerId }

/-- Opens a call.  A call that is known is left as it is. -/
def createCall (c : NewCall) : Work (Option Segment) := do
  let buyer ← buyer? c.tenant (if c.direction = "inbound" then c.fromNumber else c.toNumber)
  let now ← now
  match ← statement (Store.insertFirst (c.segment buyer now)) with
  | some row => return some (← readRow row)
  | none => segmentOfSid? c.sid

/-- Changes columns of a segment; nothing where there are no changes or no such row. -/
def updateCall (id : String) (changes : List Store.Change) : Work (Option Segment) :=
  if changes.isEmpty then return none
  else do readRow? (← statement (Store.changeCall id changes))

/-- Another writer changes a row, while any are still to do so. -/
def contend (id : String) : Work Unit :=
  Task.update fun s =>
    match s.conflicts with
    | 0 => s
    | n + 1 => { s with
        conflicts := n
        store := s.store.updateCalls (fun r => Store.sameId r.segment.id id) CallRow.written }

def mutateTries : Nat := 5

def mutateWithin {α : Type} (sid : String) (number : Int) (tenant : Option String) (f : Segment → Segment × α) :
    Nat → Work (Option (Segment × α))
  | 0 => Task.fail (.keepsChanging sid number)
  | tries + 1 => do
    let found ← segment? sid number none
    Task.interrupt .reading
    match found with
    | none => return none
    | some s =>
      if tenant.any (fun t => t != s.tenantId) then return none
      else
        let (changed, result) := f s
        if changed = s then return some (s, result)
        else do
          contend s.id
          match ← statement (Store.writeAt changed s.revision) with
          | some row => return some (← readRow row, result)
          | none => mutateWithin sid number tenant f tries

/-- Changes a segment as one atomic step: the segment afterwards and what the change gives; nothing where there is no such
segment, or it belongs to another tenant. -/
def mutate {α : Type} (sid : String) (number : Int) (tenant : Option String) (f : Segment → Segment × α) :
    Work (Option (Segment × α)) :=
  mutateWithin sid number tenant f mutateTries

/-- Hands a call on: the closed segment and the one that was opened. -/
def handOver (active : Segment) (h : Store.Handover) (scratch : Scratch) : Work (Segment × Segment) := do
  let now ← now
  let (closed, opened) ← Task.atomically fun s =>
    if !s.isUp then .error .unreachable
    else match s.store.handOver active h scratch now with
      | .ok (rows, store) => .ok (rows, { s with store })
      | .error (.closed status) => .error (.closed status)
      | .error (.unreadable e) => .error (.document e)
      | .error (.refused e) => .error (.refused e)
  Task.interrupt .statement
  return (← readRow closed, ← readRow opened)

end Switchboard.Work
