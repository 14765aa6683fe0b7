import Switchboard.Proofs.Service.Acts
/-!
# Deeds

All that the service does to a segment by a conditional write: the acts of an attempt, what becomes of the caller's own
call, and the notes that a flow takes.  How a segment ended is its record.  On a closed segment every deed leaves the record
as it is but one: the claim of a failure whose decision ends the call (`record_did`).
-/
namespace Switchboard.Segment

open Time (Instant Moment)

/-- One change of a segment by a conditional write.  A caller is gone with a status that is final. -/
inductive Deed where
  | act (a : Act)
  | callerGone (status : Status) (now : Instant) (final : status.isFinal = true := by decide)
  | callerRinging
  | outgoingFinished (status : Status) (duration : Int) (now : Instant)
  | addTag (name : String) (value : Option String)
  | setVariable (name value : String)

def did (s : Segment) : Deed → Segment
  | .act a => s.after a
  | .callerGone status now _ => (s.callerGone status now).1
  | .callerRinging => s.callerRinging.1
  | .outgoingFinished status duration now => (s.outgoingFinished status duration now).1
  | .addTag name value => (s.addTag name value).1
  | .setVariable name value => (s.setVariable name value).1

def Deed.registers : Deed → List String
  | act a => a.registers
  | _ => []

/-- How a segment ended. -/
structure Record where
  status : Status
  endedAt : Option Moment
  duration : Option Int
  deriving DecidableEq

def record (s : Segment) : Record := ⟨s.status, s.endedAt, s.duration⟩

/-- Whether a deed claims a failure whose decision ends the call. -/
def Deed.endsCall (s : Segment) : Deed → Bool
  | act a => (s.effect a).decision.any Decision.isTerminate
  | _ => false

theorem overwriting_did (s : Segment) (d : Deed) : s.overwriting (s.did d) = s.did d := by
  cases d with
  | act a => exact overwriting_after s a
  | callerGone status now =>
    simp only [did, callerGone]
    split <;> rfl
  | callerRinging =>
    simp only [did, callerRinging]
    split <;> rfl
  | outgoingFinished status duration now =>
    simp only [did, outgoingFinished]
    split
    · rfl
    · split <;> rfl
  | addTag | setVariable => rfl

/-- **A leg that rings behind a deed** rang before or was registered by it. -/
theorem pending_did {s : Segment} {d : Deed} {leg : String} (h : leg ∈ (s.did d).scratch.pendingLegs) :
    leg ∈ s.scratch.pendingLegs ∨ leg ∈ d.registers := by
  cases d with
  | act a =>
    by_contra hno
    rw [not_or] at hno
    exact (not_mem_of_after hno.1 hno.2).2 h
  | callerGone status now =>
    refine .inl ?_
    simp only [did, callerGone] at h
    split at h <;> exact h
  | callerRinging =>
    refine .inl ?_
    simp only [did, callerRinging] at h
    split at h <;> exact h
  | outgoingFinished status duration now =>
    refine .inl ?_
    simp only [did, outgoingFinished] at h
    split at h
    · exact h
    · split at h <;> exact h
  | addTag | setVariable => exact .inl h

/-- **No deed moves a segment to another conference.** -/
theorem conferenceName_did (s : Segment) (d : Deed) : (s.did d).conferenceName = s.conferenceName := by
  cases d with
  | act a =>
    cases a with
    | start => rfl
    | callerJoins seq conferenceSid =>
      simp only [did, after, perform, callerJoined]
      cases Flow.given conferenceSid <;> repeat' split
      all_goals rfl
    | register | finish | agentJoins | callerLeaves | legEnds | dialEnds =>
      simp only [did, after, perform, registerLeg, finishDialing, agentAnswered, terminatePending, legEnded, claimAfterDial,
        claimFailure]
      repeat' split
      all_goals rfl
  | callerGone | callerRinging | outgoingFinished =>
    simp only [did, callerGone, callerRinging, outgoingFinished]
    repeat' split
    all_goals rfl
  | addTag | setVariable => rfl

/-- **No deed takes the number of an attempt back.** -/
theorem attemptSeq_did (s : Segment) (d : Deed) : s.scratch.attemptSeq ≤ (s.did d).scratch.attemptSeq := by
  cases d with
  | act a =>
    cases ha : a.isStart with
    | true =>
      cases a with
      | start => exact Int.le_add_one (Int.le_refl _)
      | _ => cases ha
    | false => exact Int.le_of_eq (after_attemptSeq s a ha).symm
  | callerGone => simp only [did, callerGone]; split <;> exact Int.le_refl _
  | callerRinging => simp only [did, callerRinging]; split <;> exact Int.le_refl _
  | outgoingFinished =>
    simp only [did, outgoingFinished]
    split
    · exact Int.le_refl _
    · split <;> exact Int.le_refl _
  | addTag | setVariable => exact Int.le_refl _

/-! ## Records -/

/-- A claim changes how a segment ended where its decision ends the call, and only there. -/
theorem record_claimFailure (s : Segment) (now : Instant) :
    (s.claimFailure now).2.any Decision.isTerminate = false ∧ (s.claimFailure now).1.record = s.record ∨
      (s.claimFailure now).2.any Decision.isTerminate = true ∧ (s.claimFailure now).1.status = .failed := by
  unfold claimFailure
  split
  · exact .inl ⟨rfl, rfl⟩
  · dsimp only
    split
    · rename_i hend
      exact .inr ⟨hend, rfl⟩
    · rename_i hgoes
      exact .inl ⟨Bool.eq_false_iff.mpr hgoes, rfl⟩

/-- **An act on a closed segment** leaves its record as it is, or its decision ends the call and the segment failed. -/
theorem record_after {s : Segment} (hs : s.isClosed = true) (a : Act) :
    (s.effect a).decision.any Decision.isTerminate = false ∧ (s.after a).record = s.record ∨
      (s.effect a).decision.any Decision.isTerminate = true ∧ (s.after a).status = .failed := by
  cases a with
  | start => exact .inl ⟨rfl, rfl⟩
  | callerJoins seq conferenceSid =>
    refine .inl ⟨rfl, ?_⟩
    simp only [after, perform, callerJoined]
    cases Flow.given conferenceSid <;> repeat' split
    all_goals rfl
  | register seq leg target =>
    refine .inl ⟨rfl, ?_⟩
    simp only [after, perform, registerLeg]
    repeat' split
    all_goals rfl
  | finish seq now =>
    simp only [after, effect, perform, finishDialing]
    split
    · exact .inl ⟨rfl, rfl⟩
    · exact record_claimFailure _ now
  | agentJoins leg seq now =>
    refine .inl ⟨rfl, ?_⟩
    simp only [after, perform, agentAnswered, hs, Bool.or_true, if_true]
    split <;> rfl
  | callerLeaves seq =>
    refine .inl ⟨rfl, ?_⟩
    simp only [after, perform, terminatePending]
    split <;> rfl
  | legEnds leg seq now =>
    simp only [after, effect, perform, legEnded]
    split
    · exact .inl ⟨rfl, rfl⟩
    · split
      · exact .inl ⟨rfl, rfl⟩
      · exact record_claimFailure _ now
  | dialEnds seq now =>
    simp only [after, effect, perform, claimAfterDial]
    split
    · exact .inl ⟨rfl, rfl⟩
    · split
      · exact .inl ⟨rfl, rfl⟩
      · exact record_claimFailure _ now

theorem record_did {s : Segment} (hs : s.isClosed = true) (d : Deed) :
    d.endsCall s = false ∧ (s.did d).record = s.record ∨ d.endsCall s = true ∧ (s.did d).status = .failed := by
  cases d with
  | act a => exact record_after hs a
  | callerGone status now => exact .inl ⟨rfl, by rw [did, callerGone, if_pos hs]⟩
  | callerRinging => exact .inl ⟨rfl, by rw [did, callerRinging, hs, Bool.not_true, Bool.and_false]; rfl⟩
  | outgoingFinished status duration now => exact .inl ⟨rfl, by rw [did, outgoingFinished, if_pos hs]⟩
  | addTag | setVariable => exact .inl ⟨rfl, rfl⟩

/-- **A deed that ends the call** claims the failure of an attempt that was open and that nobody answered, of a segment that
has nowhere to go on. -/
theorem open_of_endsCall {s : Segment} {d : Deed} (h : d.endsCall s = true) :
    s.scratch.failureHandled = false ∧ s.scratch.answeredLeg = none ∧ s.moveAfterFailure = .terminate := by
  cases d with
  | act a =>
    obtain ⟨decision, hd, hend⟩ := (Option.any_eq_true _ _).mp h
    obtain ⟨hopen, -, hexhausted, rfl⟩ := decision_inv hd
    refine ⟨hopen, ?_, of_decide_eq_true hend⟩
    have hstart : a.isStart = false := by
      cases a <;> first | rfl | cases hd
    cases hanswered : s.scratch.answeredLeg with
    | none => rfl
    | some leg =>
      have hleg := ((isExhausted_iff _).mp hexhausted).2.2
      rw [after_answeredLeg s a hstart hanswered] at hleg
      cases hleg
  | callerGone | callerRinging | outgoingFinished | addTag | setVariable => cases h

end Switchboard.Segment
