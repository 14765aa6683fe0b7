import Switchboard.Store.Basic
import Switchboard.Call.Naming
/-!
# Stored segments

Statements on the segments of calls.  Two keys are unique: the id of a segment's call, and the root call id together
with the segment's number.  A segment is changed in two ways.  A conditional write takes the whole changed segment and is
carried out only if the stored revision is the one that was read.  An update takes single columns and always succeeds.
-/
namespace Switchboard

open Time (Moment Instant)

namespace CallRow

def own (s : Segment) : CallRow := ⟨s, none⟩

def readTags (v : Json) : Except ScratchFault (List Json) :=
  match v with
  | .arr xs => .ok xs
  | _ => .error .kind

def read (r : CallRow) : Except ScratchFault Segment :=
  match r.documents with
  | none => .ok r.segment
  | some (tags, scratch) => do
    let tags ← Scratch.document tags (.arr [])
    let tags ← readTags tags
    let scratch ← Scratch.document scratch (.obj [])
    let scratch ← Scratch.read scratch
    return { r.segment with tags, scratch }

/-- Whether an outbound leg was placed for a row, or answered it. -/
def hasLeg (leg : String) (r : CallRow) : Bool :=
  match r.documents with
  | none => r.segment.scratch.knowsLeg leg || r.segment.scratch.answeredLeg = some leg
  | some (_, scratch) =>
    match Scratch.document scratch (.obj []) with
    | .ok d =>
      ((d.getD "leg_identities").obj?.getD []).any (fun f => f.1 = leg) || (d.getD "answered_leg").str? = some leg
    | .error _ => false

/-- Counts a write. -/
def written (r : CallRow) : CallRow := { r with segment := { r.segment with revision := r.segment.revision + 1 } }

end CallRow

/-- Whether a row belongs to a tenant, where one is asked for. -/
def ownedBy (tenant : Option String) (id : String) : Bool := tenant.all (Store.sameId id)

namespace Store

/-! ## Reading -/

def segmentRow (root : String) (number : Int) (tenant : Option String) (db : Store) : Option CallRow :=
  db.calls.find? fun r =>
    r.segment.rootSid = root && r.segment.number = number && ownedBy tenant r.segment.tenantId

def rowOfSid (sid : String) (db : Store) : Option CallRow := db.calls.find? fun r => r.segment.callSid = sid

def rowOfId (id : String) (tenant : Option String) (db : Store) : Option CallRow :=
  db.calls.find? fun r => sameId r.segment.id id && ownedBy tenant r.segment.tenantId

/-- The rows of a call in the order of their segments. -/
def chainRows (root : String) (tenant : Option String) (db : Store) : List CallRow :=
  (db.calls.filter fun r => r.segment.rootSid = root && ownedBy tenant r.segment.tenantId).mergeSort
    fun a b => decide (a.segment.number ≤ b.segment.number)

/-- The row with the greatest number, the first of several. -/
def newest : List CallRow → Option CallRow
  | [] => none
  | r :: rest =>
    match newest rest with
    | none => some r
    | some s => if s.segment.number ≤ r.segment.number then some r else some s

/-- The newest row of a call that was not handed on. -/
def latestRow (root : String) (tenant : Option String) (db : Store) : Option CallRow :=
  newest (db.calls.filter fun r =>
    r.segment.rootSid = root && r.segment.status ≠ .transferred && ownedBy tenant r.segment.tenantId)

def rowOfLeg (leg : String) (db : Store) : Option CallRow := newest (db.calls.filter (CallRow.hasLeg leg))

def roots (tenant : String) (db : Store) : List String :=
  ((db.calls.filter fun r => sameId r.segment.tenantId tenant).map fun r => r.segment.rootSid).eraseDups

def startOf (r : CallRow) : Instant := (r.segment.startedAt.map Moment.instant).getD 0

/-- The calls of a tenant, the last one first. -/
def callRows (tenant : String) (limit offset : Int) (db : Store) : Except StoreFault (List CallRow) :=
  if !fitsLong limit || !fitsLong offset || limit < 0 || offset < 0 then .error .range
  else
    let rows := (db.calls.filter fun r => sameId r.segment.tenantId tenant && r.segment.number = 0).mergeSort
      fun a b => decide (startOf b ≤ startOf a)
    .ok ((rows.drop offset.toNat).take limit.toNat)

/-! ## Writing -/

def updateCalls (p : CallRow → Bool) (f : CallRow → CallRow) (db : Store) : Store :=
  { db with calls := db.calls.map fun r => if p r then f r else r }

def isNew (s : Segment) (db : Store) : Bool :=
  db.calls.all fun r =>
    r.segment.callSid ≠ s.callSid && !(r.segment.rootSid = s.rootSid && r.segment.number = s.number)

def insertCall (r : CallRow) (db : Store) : Except StoreFault (CallRow × Store) :=
  if !db.isNew r.segment then .error .duplicate
  else
    let (id, db) := db.nextId
    let r := { r with segment := { r.segment with id } }
    .ok (r, { db with calls := db.calls ++ [r] })

/-- Adds the first segment of a call, with documents that are still empty; nothing where its id is known. -/
def insertFirst (s : Segment) (db : Store) : Except StoreFault (Option CallRow × Store) :=
  if (db.rowOfSid s.callSid).isSome then .ok (none, db)
  else (db.insertCall ⟨s, some (.arr [], .obj [])⟩).map fun p => (some p.1, p.2)

/-- The row after a conditional write: what callbacks change, and the documents. -/
def CallRow.overwrite (s : Segment) (r : CallRow) : CallRow :=
  CallRow.own { r.segment with
    status := s.status, answeredAt := s.answeredAt, answeredBy := s.answeredBy, endedAt := s.endedAt
    duration := s.duration, conferenceName := s.conferenceName, conferenceSid := s.conferenceSid
    tags := s.tags, scratch := s.scratch, revision := r.segment.revision + 1 }

def isAt (id : String) (revision : Int) (r : CallRow) : Bool := sameId r.segment.id id && r.segment.revision = revision

/-- Writes a changed segment if its row still has a revision; the row that was written. -/
def writeAt (s : Segment) (revision : Int) (db : Store) : Except StoreFault (Option CallRow × Store) :=
  if !s.duration.all fits then .error .range
  else
    let db' := db.updateCalls (isAt s.id revision) (CallRow.overwrite s)
    .ok ((db.calls.find? (isAt s.id revision)).map (CallRow.overwrite s), db')

/-! ## Single columns -/

/-- A new value of a column that may be updated. -/
inductive Change where
  | status (v : Option Status)
  | answeredAt (v : Option Moment)
  | answeredBy (v : Option String)
  | endedAt (v : Option Moment)
  | duration (v : Option Int)
  | conferenceName (v : Option String)
  | conferenceSid (v : Option String)
  | recordingUrl (v : Option String)
  | recordingSid (v : Option String)
  | recordingDuration (v : Option Int)
  | transcription (v : Option String)
  | transcriptionStatus (v : Option String)
  | chainTranscription (v : Option String)
  | buyerId (v : Option String)
  | transferredToUserId (v : Option String)
  | transferredFromUserId (v : Option String)
  | transferReason (v : Option String)
  | transferredAt (v : Option Moment)
  deriving DecidableEq

/-- Sets a column; a status cannot be taken away. -/
def Change.apply (s : Segment) : Change → Segment
  | .status (some v) => { s with status := v }
  | .status none => s
  | .answeredAt v => { s with answeredAt := v }
  | .answeredBy v => { s with answeredBy := v }
  | .endedAt v => { s with endedAt := v }
  | .duration v => { s with duration := v }
  | .conferenceName v => { s with conferenceName := v }
  | .conferenceSid v => { s with conferenceSid := v }
  | .recordingUrl v => { s with recordingUrl := v }
  | .recordingSid v => { s with recordingSid := v }
  | .recordingDuration v => { s with recordingDuration := v }
  | .transcription v => { s with transcription := v }
  | .transcriptionStatus v => { s with transcriptionStatus := v }
  | .chainTranscription v => { s with chainTranscription := v }
  | .buyerId v => { s with buyerId := v }
  | .transferredToUserId v => { s with transferredToUserId := v }
  | .transferredFromUserId v => { s with transferredFromUserId := v }
  | .transferReason v => { s with transferReason := v }
  | .transferredAt v => { s with transferredAt := v }

/-- Whether the numbers of a change fit their columns. -/
def Change.isInRange : Change → Bool
  | .duration v => v.all fits
  | .recordingDuration v => v.all fits
  | _ => true

def Change.removesNeeded : Change → Bool
  | .status none => true
  | _ => false

/-- The row after changes of single columns. -/
def CallRow.change (changes : List Change) (r : CallRow) : CallRow :=
  CallRow.written { r with segment := changes.foldl Change.apply r.segment }

/-- Changes columns of the row with an id; the row that was changed. -/
def changeCall (id : String) (changes : List Change) (db : Store) : Except StoreFault (Option CallRow × Store) :=
  if !changes.all Change.isInRange then .error .range
  else
    match db.rowOfId id none with
    | none => .ok (none, db)
    | some r =>
      if changes.any Change.removesNeeded then .error .missing
      else .ok (some (CallRow.change changes r),
        db.updateCalls (fun r => sameId r.segment.id id) (CallRow.change changes))

/-! ## Handing a call on -/

/-- Why a call is not handed on. -/
inductive HandoverFault where
  /-- The segment is closed, or not there any more. -/
  | closed (status : Option Status)
  | unreadable (fault : ScratchFault)
  | refused (fault : StoreFault)
  deriving DecidableEq

/-- To whom a call is handed on, by whom and why. -/
structure Handover where
  toUser : String
  fromUser : Option String
  reason : Option String
  deriving DecidableEq, Repr

def CallRow.handOn (h : Handover) (now : Instant) (duration : Int) (r : CallRow) : CallRow :=
  CallRow.change [.status (some .transferred), .endedAt (some (.utc now)), .duration (some duration),
    .transferredToUserId (some h.toUser), .transferredFromUserId h.fromUser, .transferReason h.reason,
    .transferredAt (some (.utc now))] r

def successor (active : Segment) (number : Int) (h : Handover) (scratch : Scratch) (now : Instant) : Segment :=
  { Segment.opened active.tenantId (Naming.transfer active.rootSid number) active.rootSid number
      active.direction .ringing with
    fromNumber := active.fromNumber
    toNumber := active.toNumber
    startedAt := some (.utc now)
    conferenceName := some (Naming.conference active.rootSid number)
    buyerId := active.buyerId
    transferredFromUserId := h.fromUser
    transferredToUserId := some h.toUser
    transferReason := h.reason
    transferredAt := some (.utc now)
    scratch }

def nextNumber (root : String) (db : Store) : Int :=
  ((newest (db.calls.filter fun r => r.segment.rootSid = root)).map fun r => r.segment.number).getD 0 + 1

/-- Closes a segment as handed on and opens the next one, both or neither. -/
def handOver (active : Segment) (h : Handover) (scratch : Scratch) (now : Instant) (db : Store) :
    Except HandoverFault ((CallRow × CallRow) × Store) :=
  match db.rowOfId active.id none with
  | none => .error (.closed none)
  | some r =>
    if r.segment.isClosed then .error (.closed (some r.segment.status))
    else
      match r.read with
      | .error e => .error (.unreadable e)
      | .ok s =>
        let number := db.nextNumber active.rootSid
        let duration := s.elapsed (.utc now)
        if !fits number || !fits duration then .error (.refused .range)
        else
          let closed := CallRow.handOn h now duration
          match (db.updateCalls (fun r => sameId r.segment.id active.id) closed).insertCall
              (.own (successor active number h scratch now)) with
          | .error e => .error (.refused e)
          | .ok (opened, db) => .ok ((closed r, opened), db)

end Store

end Switchboard
