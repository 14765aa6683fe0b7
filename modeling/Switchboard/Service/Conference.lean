import Switchboard.Call.Attempt
import Switchboard.Call.Response
import Switchboard.Service.Calls
/-!
# Bridging callers and agents

The caller waits in the conference of the segment; agents are dialed to join it.  Every change goes through `mutate`, so of
the callbacks that come at the same time one claims the answer and one the failure.  What providers refuse is passed over:
the stored segment says what is the case.
-/
namespace Switchboard.Work

/-- What follows from a mutation, where there was one. -/
def afterwards {α : Type} (r : Option (Segment × α)) (f : Segment → α → Work Unit) : Work Unit :=
  match r with
  | some (s, a) => f s a
  | none => return ()

/-- Ends legs, whether the provider does so or not. -/
def endLegs : List String → Work Unit
  | [] => return ()
  | leg :: rest => do
    discard (terminateCall leg)
    endLegs rest

/-! ## Decisions -/

/-- Where a decision sends the caller; nowhere where it ends the call. -/
def decisionAddress (urls : Callbacks) (d : Decision) : Option String :=
  match d.move with
  | .retry line step branch attempt =>
    some (urls.flow d.tenantId line ⟨step, some "round_robin_redirect", branch, some attempt, none, none⟩)
  | .advance line step branch => some (urls.flow d.tenantId line (.at (step + 1) branch))
  | .terminate => none

/-- Moves the caller on: to the next destination or the next step, or out of the call. -/
def applyDecision (d : Decision) : Work Unit := do
  match decisionAddress (← callbacks) d with
  | some url => discard (redirectCall d.callSid (Response.redirect url).render)
  | none => discard (terminateCall d.callSid)

def applyDecision? : Option Decision → Work Unit
  | some d => applyDecision d
  | none => return ()

/-! ## Dialing -/

/-- Stores a fresh attempt before the caller is bridged; the segment with it. -/
def prepareAttempt (sid : String) (number : Int) (resume : Resume) (targets : List DialTarget) (callerId : Option String)
    (timeout : Int) (record : Bool) : Work (Option Segment) := do
  return (← mutate sid number none (Segment.startAttempt resume targets callerId timeout record)).map Prod.fst

def dialing (defaultCallerId : String) (s : Segment) (t : DialTarget) : String × String :=
  let line := (Flow.given s.scratch.callerId).getD defaultCallerId
  match t.kind with
  | .client => (clientAddress t.address [], (Flow.given s.fromNumber).getD line)
  | _ => (t.address, line)

def legFor (urls : Callbacks) (defaultCallerId : String) (s : Segment) (t : DialTarget) : Provider.Leg :=
  let sc := s.scratch
  let seq := some sc.attemptSeq
  let (destination, callerId) := dialing defaultCallerId s t
  { destination
    callerId
    document := (Response.agentJoin s.conferenceName
      (some (urls.conference s.tenantId s.rootSid s.number seq))).render
    statusCallback := urls.agentStatus s.tenantId s.rootSid s.number sc.resume.lineId sc.resume.stepIndex
      (some sc.resume.attemptIndex) seq
    timeout := sc.dialTimeout }

/-- Places a leg for one target and registers it; a leg that lost meanwhile is ended.  The legs that were placed. -/
def placeLeg (s : Segment) (t : DialTarget) : Work (List String) := do
  let leg := legFor (← callbacks) (← settings).phoneNumber s t
  match ← placeCall leg with
  | none => return []
  | some sid =>
    match ← mutate s.rootSid s.number none (Segment.registerLeg s.scratch.attemptSeq sid t) with
    | some (_, true) => discard (terminateCall sid)
    | _ => pure ()
    return [sid]

/-- Places a leg for each target. -/
def placeLegsFor (s : Segment) : List DialTarget → Work (List String)
  | [] => return []
  | t :: rest => do
    let placed ← placeLeg s t
    let more ← placeLegsFor s rest
    return placed ++ more

/-- Places a leg for each target of the attempt. -/
def placeLegs (s : Segment) : Work (List String) := placeLegsFor s s.scratch.targets

/-- Notes that every leg is placed; they may all have ended by now. -/
def finishDialing (sid : String) (number seq : Int) : Work Unit := do
  let now ← now
  afterwards (← mutate sid number none (Segment.finishDialing seq now)) fun _ d => applyDecision? d

def dialAgents (s : Segment) : Work Unit := do
  discard (placeLegs s)
  finishDialing s.rootSid s.number s.scratch.attemptSeq

/-! ## Events of the conference -/

/-- The caller joined: the agents are dialed, once. -/
def callerJoined (sid : String) (number : Int) (seq : Option Int) (conferenceSid : Option String) : Work Unit := do
  afterwards (← mutate sid number none (Segment.callerJoined seq conferenceSid)) fun s dial =>
    if dial then dialAgents s else return ()

/-- An agent joined: the first one wins, every other leg that rings is ended. -/
def agentAnswered (sid : String) (number : Int) (leg : String) (seq : Option Int) : Work Unit := do
  let now ← now
  afterwards (← mutate sid number none (Segment.agentAnswered leg seq now)) fun _ losers => endLegs losers

/-- The agent who answered left: the caller's call ends, unless it moved on. -/
def agentLeft (sid : String) (number : Int) (leg : String) : Work Unit := do
  match ← segment? sid number none with
  | none => return ()
  | some s =>
    if s.status ≠ .transferred ∧ s.scratch.answeredLeg = some leg then discard (terminateCall s.rootSid)
    else return ()

/-- Ends the legs that still ring and closes the attempt; the legs. -/
def terminatePending (sid : String) (number : Int) (seq : Option Int) : Work (List String) := do
  match ← mutate sid number none (Segment.terminatePending seq) with
  | none => return []
  | some (_, legs) => do
    endLegs legs
    return legs

/-- What a conference reports. -/
inductive ConferenceEvent where
  | joined
  | left
  | ended
  | other
  deriving DecidableEq, Repr

def ConferenceEvent.ofName (s : String) : ConferenceEvent :=
  if s = "participant-join" then joined
  else if s = "participant-leave" then left
  else if s = "conference-end" then ended
  else other

/-- Serves an event of a segment's conference.  A participant with the id of the call is the caller. -/
def conferenceEvent (sid : String) (number : Int) (event : ConferenceEvent) (participant : Option String) (seq : Option Int)
    (conferenceSid : Option String) : Work Unit :=
  match event with
  | .joined =>
    if participant = some sid then callerJoined sid number seq conferenceSid
    else match Flow.given participant with
      | some leg => agentAnswered sid number leg seq
      | none => return ()
  | .left =>
    if participant = some sid then discard (terminatePending sid number seq)
    else match Flow.given participant with
      | some leg => agentLeft sid number leg
      | none => return ()
  | .ended => discard (terminatePending sid number seq)
  | .other => return ()

/-! ## Events of legs and of the caller's dial -/

/-- A leg ended; the decision where it was the last one. -/
def legEnded (sid : String) (number : Int) (leg : String) (status : Status) (seq : Option Int) : Work (Option Decision) :=
  if !status.isFinal then return none
  else do
    let now ← now
    match ← mutate sid number none (Segment.legEnded leg seq now) with
    | none => return none
    | some (_, decision) => do
      applyDecision? decision
      return decision

/-- The caller's dial ended without an answer; the decision if it was still open. -/
def claimAfterDial (sid : String) (number : Int) (seq : Option Int) : Work (Option Decision) := do
  let now ← now
  match ← mutate sid number none (Segment.claimAfterDial seq now) with
  | none => return none
  | some (_, legs, decision) => do
    endLegs legs
    return decision

end Switchboard.Work
