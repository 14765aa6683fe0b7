import Switchboard.Call.Client
import Switchboard.Input.Number
import Switchboard.Service.Flows
import Switchboard.Service.Interpreter
import Switchboard.Service.Recordings
import Switchboard.Web.Route
/-!
# Hooks

The telephone provider tells what happened on a call and carries out what it is answered.  A hook is always answered: where
serving it fails, a caller who waits for instructions is told that nobody is there or is hung up on, and an event is passed
over.  A hook about a call of another tenant does nothing.
-/
namespace Switchboard.Web

open Work (quietly)

/-- What a hook is about: the fields of its address and of its form. -/
structure Event where
  address : Fields
  form : Fields

namespace Event

/-- A field of the form; empty where it is not there. -/
def text (name : String) (e : Event) : String := (e.form.last? name).getD ""

def number? (name : String) (e : Event) : Option Int := (e.form.last? name).bind Text.int?

def parameter? (name : String) (e : Event) : Option Int := (e.address.last? name).bind Text.int?

def sid (e : Event) : String := e.text "CallSid"

def seq (e : Event) : Option Int := e.parameter? "seq"

def recording (e : Event) : Work.Recording :=
  ⟨some (e.text "RecordingSid"), e.text "RecordingUrl", e.number? "RecordingDuration"⟩

def isRecorded (e : Event) : Bool := (e.form.last? "RecordingStatus").getD "completed" = "completed"

end Event

def orElse (fallback : Response) (t : Work Response) : Work Response := Task.recover (fun _ => return fallback) t

def ownsCall (tenant sid : String) : Work Bool := do return (← Work.segment? sid 0 (some tenant)).isSome

/-- Serves an event of a call, if it belongs to a tenant; failures are passed over. -/
def forOwnCall (tenant sid : String) (t : Work Unit) : Work Unit :=
  quietly (do if ← ownsCall tenant sid then t else return ())

/-! ## Flows -/

/-- A number as it is stored: in its international form where it has one. -/
def storedNumber (number : String) : String := (Phone.normalize? (some number)).getD number

/-- The active line of a tenant, with its flow. -/
def lineOf (tenant line : String) : Work (Option LineFlow) := do
  return (← Work.lineFlow? line).filter fun l => l.tenantId = tenant

def contextFor (l : LineFlow) (e : Event) (s : Option Segment) : CallContext where
  tenantId := l.tenantId
  lineId := l.lineId
  callSid := (s.map Segment.rootSid).getD e.sid
  flowId := l.flowId
  fromNumber := (Flow.given (s.bind Segment.fromNumber)).orElse fun _ => e.form.last? "From"
  toNumber := ((Flow.given (s.bind Segment.toNumber)).orElse fun _ => e.form.given "To").orElse fun _ => some l.phoneNumber
  segmentNumber := (s.map Segment.number).getD 0
  recordCalls := l.records

def incomingCall (tenant : String) (e : Event) : Work.NewCall where
  tenant
  sid := e.sid
  direction := "inbound"
  fromNumber := some (storedNumber (e.text "From"))
  toNumber := some (storedNumber (e.text "To"))
  status := .ofText ((e.form.given "CallStatus").getD "ringing")
  callerId := none

/-- A call comes in: it is opened, and the flow of the line starts. -/
def incoming (tenant line : String) (e : Event) : Work Response := do
  match ← lineOf tenant line with
  | none => return .unavailable
  | some l => do
    let s ← Work.createCall (incomingCall tenant e)
    if (Flow.given l.flowId).isNone || !l.isActive || l.steps.isEmpty then return .unavailable
    else return (← Work.execute l.steps (contextFor l e s) .redirect none 0 (some 0)).verbs

/-- The status of a caller's call: the active segment closes when the caller is gone. -/
def callerStatus (tenant : String) (e : Event) : Work Unit := do
  match ← Work.latest? e.sid (some tenant) with
  | none => return ()
  | some s =>
    let status := Status.ofText (e.text "CallStatus")
    if status.isFinal then do
      let now ← Work.now
      discard (Work.mutate e.sid s.number (some tenant) (Segment.callerGone status now))
      discard (Work.terminatePending e.sid s.number none)
    else if status = .ringing then discard (Work.mutate e.sid s.number (some tenant) Segment.callerRinging)
    else return ()

/-- A caller's dial is over: who was answered is hung up on, and everybody else goes where the failed attempt leads. -/
def afterDial (tenant : String) (e : Event) : Work Response := do
  match ← Work.latest? e.sid (some tenant) with
  | none => return .hangup
  | some s =>
    if s.scratch.answeredLeg.isSome || s.wasAnswered then return .hangup
    else
      match ← Work.claimAfterDial e.sid s.number e.seq with
      | none => return .hangup
      | some d =>
        match Work.decisionAddress (← Work.callbacks) d with
        | some url => return .redirect url
        | none => return .hangup

def flowReply (e : Event) : Work.Reply where
  action := .ofName? (e.address.given "action")
  digits := e.form.last? "Digits"
  attempt := (e.parameter? "attempt").getD 0
  sentAttempt := match e.form.given "attempt" with
    | some v => Text.int? v
    | none => some 0
  var := e.address.last? "var"

def continueFlow (tenant line : String) (e : Event) : Work Response := do
  match ← lineOf tenant line with
  | none => return .unavailable
  | some l =>
    if (Flow.given l.flowId).isNone then return .unavailable
    else if e.address.given "action" = some "round_robin" then afterDial tenant e
    else
      match ← Work.latest? e.sid (some tenant) with
      | none => return .unavailable
      | some s => do
        let branch := e.address.given "branch"
        let index := (e.parameter? "step").getD 0
        return (← Work.handleAction l.steps (contextFor l e (some s)) branch index (flowReply e)).1.verbs

/-! ## Conferences -/

def conferenceEvent (sid : String) (number : Int) (e : Event) : Work Unit :=
  Work.conferenceEvent sid number (.ofName (e.text "StatusCallbackEvent")) (e.form.last? "CallSid") e.seq
    (e.form.last? "ConferenceSid")

def agentStatus (tenant sid : String) (number : Int) (e : Event) : Work Unit :=
  let status := Status.ofText (e.text "CallStatus")
  if status.isFinal then
    forOwnCall tenant sid (discard (Work.legEnded sid number e.sid status e.seq))
  else return ()

/-! ## Recordings -/

/-- The recording of a segment is ready; it is written down behind the answer. -/
def segmentRecording (tenant sid : String) (number : Int) (e : Event) : Work Unit :=
  if e.isRecorded then
    forOwnCall tenant sid (do
      match ← Work.attachToSegment sid number e.recording with
      | (some s, some audio) => if audio = "" then return () else Work.transcribeSegment s audio
      | _ => return ())
  else return ()

/-- The recording of a whole call is ready; it is written down behind the answer. -/
def chainRecording (tenant sid : String) (e : Event) : Work Unit :=
  if e.isRecorded then
    forOwnCall tenant sid (do
      match ← Work.attachToChain sid e.recording with
      | (_ :: _, some audio) => if audio = "" then return () else Work.transcribeChain sid audio
      | _ => return ())
  else return ()

/-- A caller left a message. -/
def voicemail (tenant sid : String) (e : Event) : Work Unit :=
  quietly (do
    match ← Work.latest? sid (some tenant), e.form.given "RecordingUrl" with
    | some s, some url =>
      discard (Work.updateCall s.id
        [.recordingUrl (some url), .recordingSid (e.form.last? "RecordingSid"),
         .recordingDuration (e.number? "RecordingDuration")])
    | _, _ => return ())

def transcription (sid : String) (e : Event) : Work Unit :=
  discard (Work.storeTranscription sid (e.form.last? "TranscriptionText") (e.text "TranscriptionStatus"))

/-! ## Calls from the browser -/

/-- Places the call of a browser user: from the number that was asked for, else from the line of the tenant, else from the
number of the service. -/
def callOut (tenant user number : String) (e : Event) : Work Response := do
  let asked := Flow.given (Phone.normalize? (e.form.last? "CallerId"))
  let callerId ← match asked with
    | some n => pure n
    | none => do
      match Flow.given (← Work.primaryNumber tenant) with
      | some n => pure n
      | none => do pure (← Work.settings).phoneNumber
  let member ← Work.member? tenant user
  discard (Work.createCall
    { tenant, sid := e.sid, direction := "outbound", fromNumber := some callerId, toNumber := some number
      status := .ringing, callerId := member.map Member.tenantUserId })
  let urls ← Work.callbacks
  return [.callOut ⟨number, callerId, urls.outgoingStatus tenant, urls.recording tenant e.sid none⟩]

def outgoing (e : Event) : Work Response :=
  match Client.identity? ((e.form.given "From").orElse fun _ => e.form.last? "Caller") with
  | none => return .hangup
  | some (tenant, user) =>
    match Flow.given (Phone.normalize? (e.form.last? "To")) with
    | none => return [.say Wording.notAvailable, .hangup]
    | some number => callOut tenant user number e

def outgoingStatus (e : Event) : Work Unit := do
  let status := ((e.form.given "DialCallStatus").orElse fun _ => e.form.given "CallStatus").getD "completed"
  let tenant := e.address.given "tenantId"
  match ← Work.latest? e.sid tenant with
  | none => return ()
  | some s => do
    let now ← Work.now
    let duration := (e.number? "DialCallDuration").getD 0
    discard (Work.mutate e.sid s.number tenant (Segment.outgoingFinished (.ofText status) duration now))

/-! ## All hooks -/

def Hook.run (e : Event) : Hook Int → Work Reply
  | incoming tenant line => answer (orElse .unavailable (Web.incoming tenant line e))
  | incomingStatus tenant _ => event (callerStatus tenant e)
  | flow tenant line => answer (orElse .unavailable (continueFlow tenant line e))
  | dialStatus tenant _ => answer (orElse .hangup (afterDial tenant e))
  | conference tenant sid number => followed .empty (forOwnCall tenant sid (conferenceEvent sid number e))
  | agentStatus tenant sid number => followed .empty (Web.agentStatus tenant sid number e)
  | ring => answer (return .ring)
  | segmentRecording tenant sid number => event (Web.segmentRecording tenant sid number e)
  | chainRecording tenant sid => event (Web.chainRecording tenant sid e)
  | voicemail tenant sid => followed .voicemailThanks (Web.voicemail tenant sid e)
  | transcription tenant sid => event (forOwnCall tenant sid (Web.transcription sid e))
  | outgoing => answer (orElse .unavailable (Web.outgoing e))
  | outgoingStatus => followed .hangup (Web.outgoingStatus e)
where
  /-- The answer to a caller. -/
  answer (t : Work Response) : Work Reply := do return .ofVerbs (← t)
  /-- The answer behind an event. -/
  followed (r : Response) (t : Work Unit) : Work Reply := do
    quietly t
    return .ofVerbs r
  event (t : Work Unit) : Work Reply := do
    quietly t
    return .quiet

end Switchboard.Web
