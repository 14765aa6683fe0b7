import Switchboard.Call.Scratch
import Switchboard.Call.Status
import Switchboard.Flow.Step
import Switchboard.Time.Moment
/-!
# Segments

A call is a chain of segments: the one that it began with and one more for each transfer.
-/
namespace Switchboard

open Time (Moment Instant)

structure Segment where
  id : String
  tenantId : String
  callSid : String
  rootSid : String
  number : Int
  direction : String
  status : Status
  fromNumber : Option String
  toNumber : Option String
  startedAt : Option Moment
  answeredAt : Option Moment
  endedAt : Option Moment
  duration : Option Int
  conferenceName : Option String
  conferenceSid : Option String
  recordingUrl : Option String
  recordingSid : Option String
  recordingDuration : Option Int
  transcription : Option String
  transcriptionStatus : Option String
  chainTranscription : Option String
  buyerId : Option String
  callerId : Option String
  /-- The member to whom the answer is attributed. -/
  answeredBy : Option String
  transferredFromUserId : Option String
  transferredToUserId : Option String
  transferReason : Option String
  transferredAt : Option Moment
  tags : List Json
  scratch : Scratch
  /-- Grows by one with each write. -/
  revision : Int
  deriving DecidableEq

namespace Segment

/-- A segment to which nothing has happened yet. -/
def opened (tenantId callSid rootSid : String) (number : Int) (direction : String) (status : Status) : Segment where
  id := ""
  tenantId
  callSid
  rootSid
  number
  direction
  status
  fromNumber := none
  toNumber := none
  startedAt := none
  answeredAt := none
  endedAt := none
  duration := none
  conferenceName := none
  conferenceSid := none
  recordingUrl := none
  recordingSid := none
  recordingDuration := none
  transcription := none
  transcriptionStatus := none
  chainTranscription := none
  buyerId := none
  callerId := none
  answeredBy := none
  transferredFromUserId := none
  transferredToUserId := none
  transferReason := none
  transferredAt := none
  tags := []
  scratch := .fresh
  revision := 0

def isClosed (s : Segment) : Bool := s.status.isClosed

def wasAnswered (s : Segment) : Bool := s.status.isAnswered || s.answeredAt.isSome

def isTransfer (s : Segment) : Bool := 0 < s.number

/-- Whole seconds since the answer, or since the start where nobody answered; never negative. -/
def elapsed (s : Segment) (now : Moment) : Int :=
  match (match s.answeredAt with
    | some t => some t
    | none => s.startedAt) with
  | some start => max 0 (now.secondsSince start)
  | none => 0

def momentJson : Option Moment → Json
  | some m => .str m.text
  | none => .null

def toFields (s : Segment) : List (String × Json) :=
  [("id", .str s.id), ("tenant_id", .str s.tenantId), ("call_sid", .str s.callSid),
   ("original_call_sid", .str s.rootSid), ("segment_number", .int s.number), ("direction", .str s.direction),
   ("status", .str s.status.text), ("from_number", .ofStr? s.fromNumber), ("to_number", .ofStr? s.toNumber),
   ("started_at", momentJson s.startedAt), ("answered_at", momentJson s.answeredAt), ("ended_at", momentJson s.endedAt),
   ("duration", .ofInt? s.duration), ("conference_name", .ofStr? s.conferenceName),
   ("conference_sid", .ofStr? s.conferenceSid), ("recording_url", .ofStr? s.recordingUrl),
   ("recording_sid", .ofStr? s.recordingSid), ("recording_duration", .ofInt? s.recordingDuration),
   ("transcription", .ofStr? s.transcription), ("transcription_status", .ofStr? s.transcriptionStatus),
   ("chain_transcription", .ofStr? s.chainTranscription), ("buyer_id", .ofStr? s.buyerId),
   ("caller_id", .ofStr? s.callerId), ("answered_by", .ofStr? s.answeredBy),
   ("transferred_from_user_id", .ofStr? s.transferredFromUserId),
   ("transferred_to_user_id", .ofStr? s.transferredToUserId), ("transfer_reason", .ofStr? s.transferReason),
   ("transferred_at", momentJson s.transferredAt), ("tags", .arr s.tags), ("revision", .int s.revision)]

def toJson (s : Segment) : Json := .obj s.toFields

def brief (s : Segment) : Json :=
  .obj [("call_sid", .str s.callSid), ("segment_number", .int s.number), ("status", .str s.status.text),
    ("revision", .int s.revision)]

end Segment

/-! ## Decisions -/

/-- What happens to the caller after an attempt failed. -/
inductive Move where
  /-- The next destination of the same step. -/
  | retry (line : String) (step : Int) (branch : Option String) (attempt : Int)
  /-- The next step. -/
  | advance (line : String) (step : Int) (branch : Option String)
  /-- The call ends. -/
  | terminate
  deriving DecidableEq, Repr

structure Decision where
  tenantId : String
  callSid : String
  move : Move
  deriving DecidableEq, Repr

namespace Decision

def isTerminate (d : Decision) : Bool := d.move = .terminate

def toJson (d : Decision) : Json :=
  let build (action : String) (line : Option String) (step : Option Int) (branch : Option String) (attempt : Int) : Json :=
    .obj [("action", .str action), ("tenant_id", .str d.tenantId), ("call_sid", .str d.callSid), ("line_id", .ofStr? line),
      ("step_index", .ofInt? step), ("branch", .ofStr? branch), ("attempt_index", .int attempt)]
  match d.move with
  | .retry line step branch attempt => build "retry" (some line) (some step) branch attempt
  | .advance line step branch => build "advance" (some line) (some step) branch 0
  | .terminate => build "terminate" none none none 0

def ofJson (v : Json) : Decision :=
  let text (key : String) : String := ((v.getD key).str?).getD ""
  let number (key : String) : Int := ((v.getD key).int?).getD 0
  let branch := (v.getD "branch").str?
  { tenantId := text "tenant_id"
    callSid := text "call_sid"
    move := match text "action" with
      | "retry" => .retry (text "line_id") (number "step_index") branch (number "attempt_index")
      | "advance" => .advance (text "line_id") (number "step_index") branch
      | _ => .terminate }

end Decision

/-- What follows from a failed attempt: the end of the call where a transfer opened the segment or the flow has no place
to go on, the next destination of a round robin while there is one, and the next step otherwise. -/
def Segment.moveAfterFailure (s : Segment) : Move :=
  let r := s.scratch.resume
  if s.isTransfer then .terminate
  else match r.lineId, r.stepIndex with
    | some line, some step =>
      if r.stepType = some Flow.StepType.roundRobin.name ∧ r.attemptIndex + 1 < r.destinationCount then
        .retry line step r.branch (r.attemptIndex + 1)
      else .advance line step r.branch
    | _, _ => .terminate

def Segment.decisionAfterFailure (s : Segment) : Decision := ⟨s.tenantId, s.rootSid, s.moveAfterFailure⟩

end Switchboard
