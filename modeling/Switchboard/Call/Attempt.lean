import Switchboard.Call.Segment
/-!
# Attempts

The caller waits in a conference while agents are dialed to join it.  The first leg to join wins and the others are hung
up.  When every leg has ended without an answer, the attempt has failed and exactly one decision is taken.

Each function here is one atomic change of a segment.  It gives the changed segment and what is to be done because of it:
legs to hang up, or a decision to carry out.  Callbacks come late, twice and in any order, and those of an earlier attempt
change nothing.
-/
namespace Switchboard.Segment

open Time (Moment Instant)

def withScratch (s : Segment) (f : Scratch → Scratch) : Segment := { s with scratch := f s.scratch }

def startAttempt (resume : Resume) (targets : List DialTarget) (callerId : Option String) (timeout : Int) (record : Bool)
    (s : Segment) : Segment × Unit :=
  (s.withScratch (Scratch.startAttempt resume targets callerId timeout record), ())

/-- The end of a segment: its status, when it ended and how long it took. -/
def close (status : Status) (duration : Segment → Int) (now : Instant) (s : Segment) : Segment :=
  { s with status, endedAt := some (.utc now), duration := some (duration s) }

/-- Takes the decision of a failed attempt, once.  A decision that ends the call closes the segment. -/
def claimFailure (now : Instant) (s : Segment) : Segment × Option Decision :=
  if s.scratch.failureHandled || !s.scratch.isExhausted then (s, none)
  else
    let s := s.withScratch fun sc => { sc with attemptFailed := true, failureHandled := true }
    let decision := s.decisionAfterFailure
    if decision.isTerminate then
      (s.close .failed (fun s => s.elapsed (.utc now)) now, some decision)
    else (s, some decision)

/-- The caller joined the conference: whether the agents are to be dialed, which they are once an attempt.  The attempt
that a transfer opens is dialed by the transfer. -/
def callerJoined (seq : Option Int) (conferenceSid : Option String) (s : Segment) : Segment × Bool :=
  if s.scratch.isOther seq then (s, false)
  else
    let s := match Flow.given conferenceSid with
      | some c => { s with conferenceSid := some c }
      | none => s
    if s.scratch.dialed || s.scratch.agentDialedFromTransfer then (s, false)
    else (s.withScratch fun sc => { sc with dialed := true }, true)

/-- A leg was placed: whether it lost before it was known here and is to be hung up. -/
def registerLeg (seq : Int) (leg : String) (target : DialTarget) (s : Segment) : Segment × Bool :=
  if s.scratch.attemptSeq ≠ seq then (s, true)
  else
    let s := s.withScratch fun sc => { sc with legTargets := putEntry leg (some target) sc.legTargets }
    if s.scratch.answeredLeg = some leg then
      match s.answeredBy, target.identity with
      | none, some i => ({ s with answeredBy := some i.tenantUserId }, false)
      | _, _ => (s, false)
    else if s.scratch.answeredLeg.isSome then (s, !s.scratch.endedLegs.contains leg)
    else if s.scratch.endedLegs.contains leg then (s, false)
    else (s.withScratch fun sc => { sc with pendingLegs := sc.pendingLegs ++ [leg] }, false)

/-- Every leg of an attempt is placed; they may all have ended by now. -/
def finishDialing (seq : Int) (now : Instant) (s : Segment) : Segment × Option Decision :=
  if s.scratch.attemptSeq ≠ seq then (s, none)
  else (s.withScratch fun sc => { sc with dialComplete := true }).claimFailure now

/-- An agent joined the conference: the first one wins, and the legs that still ring are to be hung up. -/
def agentAnswered (leg : String) (seq : Option Int) (now : Instant) (s : Segment) : Segment × List String :=
  if s.scratch.isOther seq then (s, [])
  else if s.scratch.answeredLeg.isSome || s.isClosed then (s, [])
  else
    let losers := s.scratch.pendingLegs.filter (· ≠ leg)
    let s := s.withScratch fun sc => { sc with answeredLeg := some leg, pendingLegs := [] }
    let answeredBy := match s.scratch.identityOf leg with
      | some i => some i.tenantUserId
      | none => s.answeredBy
    ({ s with
        status := .inProgress
        answeredAt := match s.answeredAt with
          | some t => some t
          | none => some (.utc now)
        answeredBy }, losers)

/-- The caller is gone: the legs that still ring are to be hung up, and nothing follows from the attempt any more. -/
def terminatePending (seq : Option Int) (s : Segment) : Segment × List String :=
  if s.scratch.isOther seq then (s, [])
  else (s.withScratch fun sc => { sc with pendingLegs := [], failureHandled := true }, s.scratch.pendingLegs)

/-- A leg ended; it may have been the last one. -/
def legEnded (leg : String) (seq : Option Int) (now : Instant) (s : Segment) : Segment × Option Decision :=
  if s.scratch.isOther seq then (s, none)
  else if s.scratch.endedLegs.contains leg then (s, none)
  else
    (s.withScratch fun sc =>
      { sc with endedLegs := sc.endedLegs ++ [leg], pendingLegs := sc.pendingLegs.erase leg }).claimFailure now

/-- The caller's dial ended without an answer: legs that still ring are to be hung up, and the decision is taken if it is
still open. -/
def claimAfterDial (seq : Option Int) (now : Instant) (s : Segment) : Segment × (List String × Option Decision) :=
  if s.scratch.isOther seq then (s, ([], none))
  else if s.scratch.answeredLeg.isSome || s.scratch.failureHandled then (s, ([], none))
  else
    let legs := s.scratch.pendingLegs
    let (s, decision) := (s.withScratch fun sc => { sc with pendingLegs := [], dialComplete := true }).claimFailure now
    (s, (legs, decision))

/-! ## The caller's own call -/

/-- The caller hung up: an open segment is closed. -/
def callerGone (status : Status) (now : Instant) (s : Segment) : Segment × Unit :=
  if s.isClosed then (s, ())
  else (s.close status (fun s => if s.answeredAt.isSome then s.elapsed (.utc now) else 0) now, ())

def callerRinging (s : Segment) : Segment × Unit :=
  if !s.wasAnswered && !s.isClosed then ({ s with status := .ringing }, ()) else (s, ())

def outgoingFinished (status : Status) (duration : Int) (now : Instant) (s : Segment) : Segment × Unit :=
  if s.isClosed then (s, ())
  else
    let closed := s.close (if status.isFinal then status else .completed) (fun _ => duration) now
    if status = .completed ∧ duration ≠ 0 ∧ s.answeredAt = none then
      ({ closed with answeredAt := some (.utc (now - duration * Time.second)) }, ())
    else (closed, ())

def tagJson (name : String) (value : Option String) : Json := .obj [("name", .str name), ("value", .ofStr? value)]

def addTag (name : String) (value : Option String) (s : Segment) : Segment × Unit :=
  ({ s with tags := s.tags ++ [tagJson name value] }, ())

def setVariable (name value : String) (s : Segment) : Segment × Unit :=
  (s.withScratch fun sc => { sc with entered := putEntry name value sc.entered }, ())

end Switchboard.Segment
