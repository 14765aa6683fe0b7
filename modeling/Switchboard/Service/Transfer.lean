import Switchboard.Service.Conference
/-!
# Transfers

A transfer closes the active segment and opens the next one, both in one transaction.  Then the caller is moved to the
conference of the new segment and the new agent is dialed into it.  If the agent cannot be dialed the new segment has
failed and the call ends; the old segment stays handed on.
-/
namespace Switchboard.Work

def transferTimeout : Int := 30

/-- The active segment of a call, given the id of the caller's call or of an agent's leg. -/
def activeSegment? (sid : String) : Work (Option Segment) := do
  match ← latest? sid none with
  | some s => return some s
  | none =>
    match ← segmentOfLeg? sid with
    | none => return none
    | some s => latest? s.rootSid none

def lineNumber (s : Segment) : Option String := if s.direction = "inbound" then s.toNumber else s.fromNumber

def transferScratch (active : Segment) (m : Member) : Scratch :=
  { Scratch.fresh with agentDialedFromTransfer := true }.startAttempt
    { Resume.none with stepType := some "transfer", destinationCount := 1 } [m.target m.userId] (lineNumber active)
    transferTimeout true

def holdResponse (urls : Callbacks) (s : Segment) : Response :=
  [.say Wording.transferHold,
   .bridge {
     room := s.conferenceName.getD ""
     statusCallback := urls.conference s.tenantId s.rootSid s.number (some s.scratch.attemptSeq)
     waitUrl := urls.ring
     action := none
     record := s.scratch.record
     recordingCallback := some (urls.recording s.tenantId s.rootSid (some s.number))
     endOnExit := true }]

/-- Moves the caller to a segment that was opened and dials its agent; fails where the agent cannot be dialed. -/
def connect (s : Segment) : Work Unit := do
  discard (redirectCall s.rootSid (holdResponse (← callbacks) s).render)
  let placed ← placeLegs s
  if placed.isEmpty then
    let now ← now
    discard (updateCall s.id [.status (some .failed), .endedAt (some (.utc now)), .duration (some 0)])
    discard (terminateCall s.rootSid)
    Task.fail (.transfer .noLeg)
  else finishDialing s.rootSid s.number s.scratch.attemptSeq

/-- Transfers a live call to another member: the closed segment and the new one. -/
def transfer (sid toUser : String) (fromUser reason tenant : Option String) : Work (Segment × Segment) := do
  match ← activeSegment? sid with
  | none => Task.fail (.transfer .callNotFound)
  | some active => do
    if (Flow.given tenant).any (fun t => t != active.tenantId) then Task.fail (.transfer .callNotFound)
    else if active.isClosed then Task.fail (.transfer (.notOpen active.status))
    else
      match ← memberById? toUser with
      | none => Task.fail (.transfer .targetNotFound)
      | some m =>
        if m.tenantId ≠ active.tenantId then Task.fail (.transfer .targetNotFound)
        else
          let (old, new) ← Task.recover
            (fun e => match e with
              | .closed status => Task.fail (.transfer (.closedMeanwhile status))
              | e => Task.fail e)
            (handOver active ⟨m.tenantUserId, fromUser, reason⟩ (transferScratch active m))
          connect new
          return (old, (← segment? new.rootSid new.number none).getD new)

end Switchboard.Work
