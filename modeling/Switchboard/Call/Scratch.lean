import Switchboard.Call.Target
import Switchboard.Json.Equality
import Switchboard.Json.Reader
import Switchboard.Json.Printer
/-!
# Attempts in progress

Each segment keeps what its current attempt to reach somebody needs: where the flow continues, whom to dial, which legs
ring, which have ended and which has answered.  Attempts are numbered; a callback that carries another number is late.
-/
namespace Switchboard

/-- Where the flow continues once the attempt is over. -/
structure Resume where
  flowId : Option String
  lineId : Option String
  stepIndex : Option Int
  branch : Option String
  attemptIndex : Int
  stepType : Option String
  destinationCount : Int
  deriving DecidableEq, Repr

def Resume.none : Resume := ⟨.none, .none, .none, .none, 0, .none, 0⟩

/-- What a segment keeps of its attempts. -/
structure Scratch where
  /-- The version of this record as it is stored: some spelling of one. -/
  schemaVersion : Json
  resume : Resume
  /-- The number of the current attempt. -/
  attemptSeq : Int
  targets : List DialTarget
  callerId : Option String
  dialTimeout : Int
  record : Bool
  /-- Whether the targets of the attempt were asked to be dialed. -/
  dialed : Bool
  /-- Whether every leg of the attempt is placed. -/
  dialComplete : Bool
  pendingLegs : List String
  /-- The target that each leg was placed for. -/
  legTargets : List (String × Option DialTarget)
  endedLegs : List String
  answeredLeg : Option String
  attemptFailed : Bool
  /-- Whether what follows from the attempt's end is settled. -/
  failureHandled : Bool
  agentDialedFromTransfer : Bool
  entered : List (String × String)
  deriving DecidableEq

/-- Writes an entry of a map: in place where the key is there, otherwise at the end. -/
def putEntry {β : Type} (key : String) (v : β) : List (String × β) → List (String × β)
  | [] => [(key, v)]
  | (k, w) :: rest => if k = key then (k, v) :: rest else (k, w) :: putEntry key v rest

namespace Scratch

/-- A segment that has tried nothing yet. -/
def fresh : Scratch where
  schemaVersion := .int 1
  resume := .none
  attemptSeq := 0
  targets := []
  callerId := none
  dialTimeout := 30
  record := false
  dialed := false
  dialComplete := false
  pendingLegs := []
  legTargets := []
  endedLegs := []
  answeredLeg := none
  attemptFailed := false
  failureHandled := false
  agentDialedFromTransfer := false
  entered := []

/-- The next attempt, with nothing done for it yet. -/
def startAttempt (resume : Resume) (targets : List DialTarget) (callerId : Option String) (timeout : Int) (record : Bool)
    (s : Scratch) : Scratch :=
  { s with
    attemptSeq := s.attemptSeq + 1, resume, targets, callerId, dialTimeout := timeout, record
    dialed := false, dialComplete := false, pendingLegs := [], legTargets := [], endedLegs := [], answeredLeg := none
    attemptFailed := false, failureHandled := false }

def targetOf (s : Scratch) (leg : String) : Option DialTarget :=
  ((s.legTargets.find? (fun e => e.1 = leg)).map Prod.snd).bind id

def knowsLeg (s : Scratch) (leg : String) : Bool := s.legTargets.any (fun e => e.1 = leg)

/-- The member to whom an answer on a leg is attributed: the one of its target, or of the attempt's only target. -/
def identityOf (s : Scratch) (leg : String) : Option Identity :=
  match (s.targetOf leg).bind DialTarget.identity with
  | some i => some i
  | none =>
    match s.targets with
    | [t] => if s.knowsLeg leg then t.identity else none
    | _ => none

/-- Whether every leg of the attempt has ended and nobody answered. -/
def isExhausted (s : Scratch) : Bool := s.dialComplete && s.pendingLegs.isEmpty && s.answeredLeg.isNone

/-- Whether a callback that carries an attempt number is about another attempt. -/
def isOther (s : Scratch) (seq : Option Int) : Bool := seq.any (fun n => n != s.attemptSeq)

end Scratch

/-! ## Writing -/

def Resume.toJson (r : Resume) : Json :=
  .obj [("flow_id", .ofStr? r.flowId), ("line_id", .ofStr? r.lineId), ("step_index", .ofInt? r.stepIndex),
    ("branch", .ofStr? r.branch), ("attempt_index", .int r.attemptIndex), ("step_type", .ofStr? r.stepType),
    ("destination_count", .int r.destinationCount)]

namespace Scratch

def legTargetJson : Option DialTarget → Json
  | some t => t.toJson
  | none => .obj []

def toFields (s : Scratch) : List (String × Json) :=
  [("schema_version", s.schemaVersion), ("resume", s.resume.toJson), ("attempt_seq", .int s.attemptSeq),
   ("targets", .arr (s.targets.map DialTarget.toJson)), ("caller_id", .ofStr? s.callerId),
   ("dial_timeout", .int s.dialTimeout), ("record", .bool s.record), ("dialed", .bool s.dialed),
   ("dial_complete", .bool s.dialComplete), ("pending_legs", .arr (s.pendingLegs.map .str)),
   ("leg_identities", .obj (s.legTargets.map fun e => (e.1, legTargetJson e.2))),
   ("ended_legs", .arr (s.endedLegs.map .str)), ("answered_leg", .ofStr? s.answeredLeg),
   ("attempt_failed", .bool s.attemptFailed), ("failure_handled", .bool s.failureHandled),
   ("agent_dialed_from_transfer", .bool s.agentDialedFromTransfer),
   ("variables", .obj (s.entered.map fun e => (e.1, .str e.2)))]

def toJson (s : Scratch) : Json := .obj s.toFields

def toText (s : Scratch) : String := s.toJson.toText

end Scratch

/-! ## Reading -/

/-- Why a stored record cannot be read. -/
inductive ScratchFault where
  /-- The text is no document. -/
  | unreadable (refusal : Json.ParseError)
  /-- A value is of a kind that cannot stand there. -/
  | kind
  /-- A text stands where a record is expected. -/
  | text
  | target (fault : DialTarget.Fault)
  deriving DecidableEq, Repr

/-- The wording of what is wrong with a text. -/
def ScratchFault.message? : ScratchFault → Option String
  | unreadable refusal => some refusal.message
  | text => some "dictionary update sequence element #0 has length 1; 2 is required"
  | target (.missing name) => some ("'" ++ name ++ "'")
  | _ => none

namespace Scratch

abbrev Reading := Except ScratchFault

def readText? (v : Json) : Reading (Option String) :=
  match v with
  | .null => .ok none
  | .str s => .ok (some s)
  | _ => .error .kind

def readText (v : Json) : Reading String :=
  match v with
  | .str s => .ok s
  | _ => .error .kind

def readInt (v : Json) : Reading Int :=
  match v with
  | .int n => .ok n
  | _ => .error .kind

def readInt? (v : Json) : Reading (Option Int) :=
  match v with
  | .null => .ok none
  | .int n => .ok (some n)
  | _ => .error .kind

def readBool (v : Json) : Reading Bool :=
  match v with
  | .bool b => .ok b
  | _ => .error .kind

def readList {α : Type} (read : Json → Reading α) (v : Json) : Reading (List α) :=
  match v with
  | .arr xs => xs.mapM read
  | _ => .error .kind

def readMap {α : Type} (read : Json → Reading α) (v : Json) : Reading (List (String × α)) :=
  match v with
  | .obj fs => fs.mapM fun f => (read f.2).map fun a => (f.1, a)
  | _ => .error .kind

def readTarget (v : Json) : Reading DialTarget :=
  match DialTarget.read v with
  | .ok t => .ok t
  | .error e => .error (.target e)

/-- The target of a leg; a value that stands for nothing is none. -/
def readLegTarget (v : Json) : Reading (Option DialTarget) :=
  if v.truthy then (readTarget v).map some else .ok none

/-- A field with a default. -/
def stored {α : Type} (key : String) (default : α) (read : Json → Reading α) (fs : List (String × Json)) : Reading α :=
  match Json.lookup key fs with
  | some v => read v
  | none => .ok default

/-- Where the flow continues; other fields are passed over. -/
def readResume (v : Json) : Reading Resume :=
  if !v.truthy then .ok .none
  else match v with
    | .obj fs => do
      let flowId ← stored "flow_id" none readText? fs
      let lineId ← stored "line_id" none readText? fs
      let stepIndex ← stored "step_index" none readInt? fs
      let branch ← stored "branch" none readText? fs
      let attemptIndex ← stored "attempt_index" 0 readInt fs
      let stepType ← stored "step_type" none readText? fs
      let destinationCount ← stored "destination_count" 0 readInt fs
      return ⟨flowId, lineId, stepIndex, branch, attemptIndex, stepType, destinationCount⟩
    | _ => .error .kind

def isOne : Json → Bool
  | .int n => n = 1
  | .bool b => b
  | .float x => x == 1.0
  | _ => false

/-- The record that a document holds.  A record of another version is not understood and counts as fresh; other fields
are passed over. -/
def ofFields (fs : List (String × Json)) : Reading Scratch :=
  let version := (Json.lookup "schema_version" fs).getD (.int 1)
  if !isOne version then .ok fresh
  else do
    let resume ← stored "resume" .none readResume fs
    let attemptSeq ← stored "attempt_seq" 0 readInt fs
    let targets ← stored "targets" [] (readList readTarget) fs
    let callerId ← stored "caller_id" none readText? fs
    let dialTimeout ← stored "dial_timeout" 30 readInt fs
    let record ← stored "record" false readBool fs
    let dialed ← stored "dialed" false readBool fs
    let dialComplete ← stored "dial_complete" false readBool fs
    let pendingLegs ← stored "pending_legs" [] (readList readText) fs
    let legTargets ← stored "leg_identities" [] (readMap readLegTarget) fs
    let endedLegs ← stored "ended_legs" [] (readList readText) fs
    let answeredLeg ← stored "answered_leg" none readText? fs
    let attemptFailed ← stored "attempt_failed" false readBool fs
    let failureHandled ← stored "failure_handled" false readBool fs
    let agentDialedFromTransfer ← stored "agent_dialed_from_transfer" false readBool fs
    let entered ← stored "variables" [] (readMap readText) fs
    return {
      schemaVersion := version, resume, attemptSeq, targets, callerId, dialTimeout, record, dialed, dialComplete
      pendingLegs, legTargets, endedLegs, answeredLeg, attemptFailed, failureHandled, agentDialedFromTransfer, entered }

/-- The record that a value stands for; nothing stands for a fresh one. -/
def read (v : Json) : Reading Scratch :=
  if !v.truthy then ofFields []
  else match v with
    | .obj fs => ofFields fs
    | .str _ => .error .text
    | _ => .error .kind

/-- The value of a stored document: a text is parsed, a list or an object is taken as it is. -/
def document (v : Json) (default : Json) : Reading Json :=
  match v with
  | .null => .ok default
  | .arr _ => .ok v
  | .obj _ => .ok v
  | .str s =>
    match Json.parse s with
    | .ok d => .ok d
    | .error e => .error (.unreadable e)
  | _ => .error .kind

end Scratch

end Switchboard
