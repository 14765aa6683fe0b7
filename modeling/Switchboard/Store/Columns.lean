import Switchboard.Store.Calls
import Switchboard.Store.Flows
/-!
# Rows as documents

Rows are given and shown as objects with a field for each column.  What a request did to the store is shown as the columns
that differ, with the fields of a segment's attempt record as columns of their own.
-/
namespace Switchboard

open Time (Moment Instant)

/-! ## Segments -/

/-- A segment with some of its columns given anew; its documents stay.  Times are read as `time` says. -/
def Segment.withFields (time : Json → Option Moment) (fs : List (String × Json)) (s : Segment) : Segment :=
  let pick {α : Type} (key : String) (old : α) (read : Json → α) : α :=
    match Json.lookup key fs with
    | some v => read v
    | none => old
  let text (key : String) (old : String) : String := pick key old fun v => v.str?.getD old
  let text? (key : String) (old : Option String) : Option String := pick key old Json.str?
  let number? (key : String) (old : Option Int) : Option Int := pick key old Json.int?
  let time? (key : String) (old : Option Moment) : Option Moment := pick key old time
  { s with
    id := text "id" s.id
    tenantId := text "tenant_id" s.tenantId
    callSid := text "call_sid" s.callSid
    rootSid := text "original_call_sid" s.rootSid
    number := pick "segment_number" s.number fun v => v.int?.getD s.number
    direction := text "direction" s.direction
    status := .ofText (text "status" s.status.text)
    fromNumber := text? "from_number" s.fromNumber
    toNumber := text? "to_number" s.toNumber
    startedAt := time? "started_at" s.startedAt
    answeredAt := time? "answered_at" s.answeredAt
    endedAt := time? "ended_at" s.endedAt
    duration := number? "duration" s.duration
    conferenceName := text? "conference_name" s.conferenceName
    conferenceSid := text? "conference_sid" s.conferenceSid
    recordingUrl := text? "recording_url" s.recordingUrl
    recordingSid := text? "recording_sid" s.recordingSid
    recordingDuration := number? "recording_duration" s.recordingDuration
    transcription := text? "transcription" s.transcription
    transcriptionStatus := text? "transcription_status" s.transcriptionStatus
    chainTranscription := text? "chain_transcription" s.chainTranscription
    buyerId := text? "buyer_id" s.buyerId
    callerId := text? "caller_id" s.callerId
    answeredBy := text? "answered_by" s.answeredBy
    transferredFromUserId := text? "transferred_from_user_id" s.transferredFromUserId
    transferredToUserId := text? "transferred_to_user_id" s.transferredToUserId
    transferReason := text? "transfer_reason" s.transferReason
    transferredAt := time? "transferred_at" s.transferredAt
    revision := pick "revision" s.revision fun v => v.int?.getD s.revision }

/-- The change of a named column; none where it is not for updates. -/
def Store.Change.ofField? (time : Json → Option Moment) (column : String) (v : Json) : Option Store.Change :=
  match column with
  | "status" => some (.status (v.str?.map Status.ofText))
  | "answered_at" => some (.answeredAt (time v))
  | "answered_by" => some (.answeredBy v.str?)
  | "ended_at" => some (.endedAt (time v))
  | "duration" => some (.duration v.int?)
  | "conference_name" => some (.conferenceName v.str?)
  | "conference_sid" => some (.conferenceSid v.str?)
  | "recording_url" => some (.recordingUrl v.str?)
  | "recording_sid" => some (.recordingSid v.str?)
  | "recording_duration" => some (.recordingDuration v.int?)
  | "transcription" => some (.transcription v.str?)
  | "transcription_status" => some (.transcriptionStatus v.str?)
  | "chain_transcription" => some (.chainTranscription v.str?)
  | "buyer_id" => some (.buyerId v.str?)
  | "transferred_to_user_id" => some (.transferredToUserId v.str?)
  | "transferred_from_user_id" => some (.transferredFromUserId v.str?)
  | "transfer_reason" => some (.transferReason v.str?)
  | "transferred_at" => some (.transferredAt (time v))
  | _ => none

/-- The changes of named columns, or the first of them that is not for updates. -/
def Store.Change.ofFields (time : Json → Option Moment) : List (String × Json) → Except String (List Store.Change)
  | [] => .ok []
  | f :: rest =>
    match Store.Change.ofField? time f.1 f.2 with
    | none => .error f.1
    | some c => (Store.Change.ofFields time rest).map fun cs => c :: cs

def overlay (base upper : List (String × Json)) : List (String × Json) :=
  upper.foldl (fun fs f => putEntry f.1 f.2 fs) base

namespace CallRow

/-- A stored document: a text is shown as what it spells. -/
def shown (v : Json) : Json :=
  match v with
  | .str s =>
    match Json.parse s with
    | .ok d => d
    | .error _ => v
  | v => v

/-- The documents of a row: the tags and the attempt record. -/
def shownDocuments (r : CallRow) : Json × Json :=
  match r.documents with
  | none => (.arr r.segment.tags, r.segment.scratch.toJson)
  | some (tags, scratch) => (shown tags, shown scratch)

/-- The columns of a row without its attempt record. -/
def plainColumns (r : CallRow) : List (String × Json) :=
  (r.segment.toFields.filter fun f => f.1 ≠ "tags") ++ [("tags", r.shownDocuments.1)]

/-- The columns of a row, the fields of its attempt record among them. -/
def columns (r : CallRow) : List (String × Json) :=
  r.plainColumns ++ ((r.shownDocuments.2.obj?).getD []).map fun f => ("scratch." ++ f.1, f.2)

/-- The columns in which a row differs from an earlier one; of a new row those that are there. -/
def changesSince (before : Option CallRow) (r : CallRow) : List (String × Json) :=
  match before with
  | none => r.columns.filter fun f => f.2 ≠ .null
  | some b =>
    let gone := b.columns.filter fun f => (Json.lookup f.1 r.columns).isNone
    (r.columns.filter fun f => !((Json.lookup f.1 b.columns).getD .null).alike f.2) ++ gone.map fun f => (f.1, .null)

end CallRow

namespace Store

/-- What differs between two stores, by the ids of calls. -/
def changes (before after : Store) : List (String × Json) :=
  after.calls.filterMap fun r =>
    match r.changesSince (before.rowOfSid r.segment.callSid) with
    | [] => none
    | fs => some (r.segment.callSid, .obj fs)

def table (name : String) (db : Store) : List Json :=
  match name with
  | "users" => db.users.map fun u =>
      .obj [("id", .str u.id), ("email", .str u.email), ("first_name", .ofStr? u.firstName), ("last_name", .ofStr? u.lastName)]
  | "tenant_users" => db.members.map fun m =>
      .obj [("id", .str m.id), ("tenant_id", .str m.tenantId), ("user_id", .str m.userId), ("is_active", .bool m.isActive)]
  | "buyers" => db.buyers.map fun b =>
      .obj [("id", .str b.id), ("tenant_id", .str b.tenantId), ("phone_main", .ofStr? b.main),
        ("phone_secondary", .ofStr? b.secondary), ("phone_mobile", .ofStr? b.mobile)]
  | "call_flows" => db.flows.map fun f => .obj (f.columns)
  | "phone_lines" => db.lines.map fun l => .obj (l.columns)
  | "phone_calls" => db.calls.map fun r => .obj (r.plainColumns ++ [("scratch", r.shownDocuments.2)])
  | "tts_cache" => db.speeches.map fun s =>
      .obj [("text_hash", .str s.digest), ("voice", .str s.voice), ("text", .str s.text), ("audio_url", .str s.address),
        ("created_at", .str s.createdAt.text)]
  | _ => []

/-! ## Loading -/

/-- What absent columns of loaded rows stand for. -/
structure LoadDefaults where
  tenant : String
  segment : Segment
  /-- Times of flows. -/
  madeAt : Moment
  time : Json → Option Moment

def flag (v : Json) (key : String) (default : Bool) : Bool :=
  match v.get? key with
  | some w => w.truthy
  | none => default

def textOr (v : Json) (key default : String) : String := ((v.get? key).bind Json.str?).getD default

def text? (v : Json) (key : String) : Option String := (v.getD key).str?

/-- The id that a row brings, or the next one. -/
def loadId (v : Json) (db : Store) : String × Store :=
  match text? v "id" with
  | some id => (id, db)
  | none => db.nextId

def loadUser (db : Store) (v : Json) : Store :=
  let (id, db) := loadId v db
  { db with users := db.users ++ [⟨id, textOr v "email" "", text? v "first_name", text? v "last_name"⟩] }

def loadMember (d : LoadDefaults) (db : Store) (v : Json) : Store :=
  let (id, db) := loadId v db
  { db with members := db.members ++
      [⟨id, textOr v "tenant_id" d.tenant, textOr v "user_id" "", flag v "is_active" true⟩] }

def loadBuyer (d : LoadDefaults) (db : Store) (v : Json) : Store :=
  let (id, db) := loadId v db
  { db with buyers := db.buyers ++
      [⟨id, textOr v "tenant_id" d.tenant, text? v "phone_main", text? v "phone_secondary", text? v "phone_mobile"⟩] }

def loadFlow (d : LoadDefaults) (db : Store) (v : Json) : Store :=
  let (id, db) := loadId v db
  { db with flows := db.flows ++
      [{ id
         tenantId := textOr v "tenant_id" d.tenant
         name := textOr v "name" ""
         description := text? v "description"
         isActive := flag v "is_active" true
         records := flag v "record_inbound_calls" false
         steps := match v.get? "steps" with
           | some (.str s) => Json.parse s
           | some d => .ok d
           | none => .ok (.arr [])
         createdAt := (d.time (v.getD "created_at")).getD d.madeAt
         updatedAt := (d.time (v.getD "updated_at")).getD d.madeAt }] }

def loadLine (d : LoadDefaults) (db : Store) (v : Json) : Store :=
  let (id, db) := loadId v db
  { db with lines := db.lines ++
      [⟨id, textOr v "tenant_id" d.tenant, textOr v "phone_number" "", text? v "friendly_name", flag v "is_active" true,
        flag v "is_primary" false, text? v "call_flow_id"⟩] }

/-- The attempt record of a loaded row: fields are laid over a fresh record, a text is kept. -/
def loadScratch (v : Json) : Json :=
  match v.get? "scratch" with
  | some (.obj fs) => .obj (overlay Scratch.fresh.toFields fs)
  | some (.str s) => .str s
  | _ => Scratch.fresh.toJson

def loadCall (d : LoadDefaults) (db : Store) (v : Json) : Store :=
  let sid := textOr v "call_sid" ""
  let root := textOr v "original_call_sid" (Naming.root sid)
  let number := ((v.getD "segment_number").int?).getD 0
  let (id, db) := loadId v db
  let s := { d.segment with
    id, callSid := sid, rootSid := root, number, conferenceName := some (Naming.conference root number) }
  let s := s.withFields d.time ((v.obj?).getD [])
  { db with calls := db.calls ++ [⟨s, some ((v.get? "tags").getD (.arr []), loadScratch v)⟩] }

def rowsOf (v : Json) (table : String) : List Json := ((v.getD table).arr?).getD []

def load (d : LoadDefaults) (v : Json) (db : Store) : Store :=
  let db := (rowsOf v "users").foldl loadUser db
  let db := (rowsOf v "tenant_users").foldl (loadMember d) db
  let db := (rowsOf v "buyers").foldl (loadBuyer d) db
  let db := (rowsOf v "call_flows").foldl (loadFlow d) db
  let db := (rowsOf v "phone_lines").foldl (loadLine d) db
  (rowsOf v "calls").foldl (loadCall d) db

end Store

end Switchboard
