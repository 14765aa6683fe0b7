import Switchboard.Proofs.Attempt.Step
/-!
# One decision an attempt

Three acts claim the decision of a failed attempt and two settle it without one, in any order and each of them late or
twice.  The invariant is that an attempt with no leg left to wait for is settled (`ExhaustedSettled`).  A claim needs an
attempt that is not settled and settles it, so no run without a new attempt takes two decisions.
-/
namespace Switchboard.Segment

/-- An attempt whose every leg has ended without an answer is settled. -/
def ExhaustedSettled (s : Segment) : Prop := s.scratch.isExhausted = true → s.scratch.failureHandled = true

theorem IsFresh.exhaustedSettled {s : Segment} (h : s.IsFresh) : s.ExhaustedSettled := by
  intro he
  rw [h] at he
  cases he

theorem claimed_settled {sc : Scratch} : (claimed sc).isExhausted = true → (claimed sc).failureHandled = true := by
  intro h
  rw [claimed_isExhausted] at h
  rw [claimed_failureHandled, h, Bool.or_true]

/-- **No act leaves an exhausted attempt open.**  The acts that may end the waiting claim the decision at once. -/
theorem after_exhaustedSettled (s : Segment) (a : Act) (h : s.ExhaustedSettled) : (s.after a).ExhaustedSettled := by
  unfold ExhaustedSettled at h ⊢
  cases a with
  | start => intro he; cases he
  | callerJoins =>
    rw [scratch_after_callerJoins]
    split <;> exact h
  | register seq leg target =>
    rw [scratch_after_register]
    split
    · exact h
    · intro he
      refine h ?_
      rw [isExhausted_iff] at he ⊢
      obtain ⟨hd, hp, ha⟩ := he
      dsimp only at hd hp ha
      -- a leg that is noted as ringing leaves the attempt waiting for it
      split at hp
      · exact absurd hp (List.append_ne_nil_of_right_ne_nil _ (List.cons_ne_nil _ _))
      · exact ⟨hd, hp, ha⟩
  | finish =>
    rw [scratch_after_finish]
    split
    · exact h
    · exact claimed_settled
  | agentJoins =>
    rw [scratch_after_agentJoins]
    split
    · exact h
    · intro he
      simp [Scratch.isExhausted] at he
  | callerLeaves =>
    rw [scratch_after_callerLeaves]
    split
    · exact h
    · intro _
      rfl
  | legEnds =>
    rw [scratch_after_legEnds]
    split
    · exact h
    · exact claimed_settled
  | dialEnds =>
    rw [scratch_after_dialEnds]
    split
    · exact h
    · exact claimed_settled

theorem run_exhaustedSettled (s : Segment) (acts : List Act) (h : s.ExhaustedSettled) :
    (s.run acts).ExhaustedSettled :=
  run_induction (Q := fun _ => True) (fun s a _ => after_exhaustedSettled s a) acts s (fun _ _ => trivial) h

/-- **A settled attempt takes no decision any more.** -/
theorem decisions_of_settled : ∀ (acts : List Act) (s : Segment), (∀ a ∈ acts, a.isStart = false) →
    s.scratch.failureHandled = true → s.decisions acts = []
  | [], _, _, _ => rfl
  | a :: acts, s, hacts, h => by
    rw [decisions_cons, decision_of_settled s a h,
      decisions_of_settled acts (s.after a) (fun b hb => hacts b (List.mem_cons_of_mem _ hb))
        (after_failureHandled s a (hacts a List.mem_cons_self) h)]
    rfl

/-- **One attempt takes one decision at most.** -/
theorem decisions_length_le_one : ∀ (acts : List Act) (s : Segment), (∀ a ∈ acts, a.isStart = false) →
    (s.decisions acts).length ≤ 1
  | [], _, _ => Nat.zero_le _
  | a :: acts, s, hacts => by
    have hrest : ∀ b ∈ acts, b.isStart = false := fun b hb => hacts b (List.mem_cons_of_mem _ hb)
    rw [decisions_cons]
    cases hd : (s.effect a).decision with
    | none => exact decisions_length_le_one acts (s.after a) hrest
    | some d => rw [decisions_of_settled acts (s.after a) hrest (decision_inv hd).2.1]; exact Nat.le_refl 1

/-- **What an attempt decides if it fails** does not change while it goes on. -/
theorem after_decisionAfterFailure (s : Segment) (a : Act) (ha : a.isStart = false) :
    (s.after a).decisionAfterFailure = s.decisionAfterFailure := by
  have hclaim (t : Segment) (now : Time.Instant) :
      (t.claimFailure now).1.decisionAfterFailure = t.decisionAfterFailure := by
    unfold claimFailure
    split
    · rfl
    · dsimp only
      split <;> rfl
  cases a with
  | start => cases ha
  | callerJoins seq conferenceSid =>
    simp only [after, perform, callerJoined]
    cases Flow.given conferenceSid <;> repeat' split
    all_goals rfl
  | register seq leg target =>
    simp only [after, perform, registerLeg]
    repeat' split
    all_goals rfl
  | finish seq now =>
    simp only [after, perform, finishDialing]
    split
    · rfl
    · exact hclaim _ now
  | agentJoins leg seq now =>
    simp only [after, perform, agentAnswered]
    repeat' split
    all_goals rfl
  | callerLeaves seq =>
    simp only [after, perform, terminatePending]
    split <;> rfl
  | legEnds leg seq now =>
    simp only [after, perform, legEnded]
    split
    · rfl
    · split
      · rfl
      · exact hclaim _ now
  | dialEnds seq now =>
    simp only [after, perform, claimAfterDial]
    split
    · rfl
    · split
      · rfl
      · exact hclaim _ now

/-- **An attempt that is settled though its caller stays** is settled by its decision. -/
theorem decision_of_settling {s : Segment} {a : Act} (h0 : s.scratch.failureHandled = false)
    (h1 : (s.after a).scratch.failureHandled = true) (hstays : ∀ seq, a ≠ .callerLeaves seq) :
    (s.effect a).decision = some s.decisionAfterFailure := by
  have hclaim {t : Segment} (now : Time.Instant) (ht : t.scratch.failureHandled = false)
      (h : (t.claimFailure now).1.scratch.failureHandled = true) :
      (t.claimFailure now).2 = some t.decisionAfterFailure := by
    rw [claimFailure_scratch, claimed_failureHandled, ht, Bool.false_or] at h
    rw [claimFailure_decision, ht, h]
    rfl
  cases a with
  | start => cases h1
  | callerLeaves seq => exact absurd rfl (hstays seq)
  | callerJoins => rw [scratch_after_callerJoins] at h1; split at h1 <;> rw [h0] at h1 <;> cases h1
  | register => rw [scratch_after_register] at h1; split at h1 <;> rw [h0] at h1 <;> cases h1
  | agentJoins => rw [scratch_after_agentJoins] at h1; split at h1 <;> rw [h0] at h1 <;> cases h1
  | finish seq now =>
    simp only [after, effect, perform, finishDialing] at h1 ⊢
    split at h1
    · rw [h0] at h1
      cases h1
    · rw [if_neg ‹_›]
      exact hclaim now h0 h1
  | legEnds leg seq now =>
    simp only [after, effect, perform, legEnded] at h1 ⊢
    split at h1
    · rw [h0] at h1
      cases h1
    · split at h1
      · rw [h0] at h1
        cases h1
      · rw [if_neg ‹_›, if_neg ‹_›]
        exact hclaim now h0 h1
  | dialEnds seq now =>
    simp only [after, effect, perform, claimAfterDial] at h1 ⊢
    split at h1
    · rw [h0] at h1
      cases h1
    · split at h1
      · rw [h0] at h1
        cases h1
      · rw [if_neg ‹_›, if_neg ‹_›]
        exact hclaim now h0 h1

/-- **A run that settles an attempt whose caller stays** takes its one decision. -/
theorem decisions_of_settling : ∀ (acts : List Act) (s : Segment),
    (∀ a ∈ acts, a.isStart = false ∧ ∀ seq, a ≠ .callerLeaves seq) → s.scratch.failureHandled = false →
      (s.run acts).scratch.failureHandled = true → s.decisions acts = [s.decisionAfterFailure]
  | [], s, _, h0, h1 => by
    rw [run_nil, h0] at h1
    cases h1
  | a :: acts, s, hacts, h0, h1 => by
    obtain ⟨⟨ha, hstays⟩, hrest⟩ := List.forall_mem_cons.1 hacts
    rw [decisions_cons]
    cases hafter : (s.after a).scratch.failureHandled with
    | true =>
      rw [decision_of_settling h0 hafter hstays, decisions_of_settled acts _ (fun b hb => (hrest b hb).1) hafter]
      rfl
    | false =>
      have hnone : (s.effect a).decision = none := by
        cases hd : (s.effect a).decision with
        | none => rfl
        | some d =>
          rw [(decision_inv hd).2.1] at hafter
          cases hafter
      rw [hnone, decisions_of_settling acts (s.after a) hrest hafter h1, after_decisionAfterFailure s a ha]
      rfl

/-- What a decision leaves behind: every leg is placed and has ended, and nobody has answered. -/
theorem exhausted_of_decision {s : Segment} {a : Act} {d : Decision} (h : (s.effect a).decision = some d) :
    (s.after a).scratch.answeredLeg = none ∧ (s.after a).scratch.pendingLegs = [] ∧
      (s.after a).scratch.dialComplete = true := by
  obtain ⟨hc, hp, ha⟩ := (isExhausted_iff _).1 (decision_inv h).2.2.1
  exact ⟨ha, hp, hc⟩

theorem decision_of_legEnds_eq_none (s : Segment) (leg : String) (seq : Option Int) (now : Time.Instant)
    (h : s.scratch.answeredLeg ≠ none ∨ s.scratch.dialComplete = false) :
    (s.effect (.legEnds leg seq now)).decision = none := by
  cases hd : (s.effect (.legEnds leg seq now)).decision with
  | none => rfl
  | some d =>
    obtain ⟨ha, -, hc⟩ := exhausted_of_decision hd
    rw [scratch_after_legEnds] at ha hc
    rcases h with h | h
    · split at ha
      · exact absurd ha h
      · exact absurd (by simpa using ha) h
    · split at hc <;> simp_all

/-- **Every attempt has exactly one outcome.**  Of every run of a fresh segment: an attempt with nothing left to wait for
is settled; from one start of an attempt to the next one decision is taken at most; behind a decision nobody has answered
and no leg is waited for; and the end of a leg decides nothing while the attempt is answered or still being dialed. -/
theorem one_outcome_per_attempt (s : Segment) (acts : List Act) (hs : s.IsFresh) :
    ((s.run acts).scratch.dialComplete = true → (s.run acts).scratch.pendingLegs = [] →
      (s.run acts).scratch.answeredLeg = none → (s.run acts).scratch.failureHandled = true) ∧
    (∀ more : List Act, (∀ a ∈ more, a.isStart = false) → ((s.run acts).decisions more).length ≤ 1) ∧
    (∀ (a : Act) (d : Decision), ((s.run acts).effect a).decision = some d →
      ((s.run acts).after a).scratch.answeredLeg = none ∧ ((s.run acts).after a).scratch.pendingLegs = [] ∧
        ((s.run acts).after a).scratch.dialComplete = true) ∧
    (∀ (leg : String) (seq : Option Int) (now : Time.Instant),
      (s.run acts).scratch.answeredLeg ≠ none ∨ (s.run acts).scratch.dialComplete = false →
        ((s.run acts).effect (.legEnds leg seq now)).decision = none) := by
  refine ⟨fun hd hp ha => ?_, fun more => decisions_length_le_one more _, fun a d => exhausted_of_decision,
    fun leg seq now => decision_of_legEnds_eq_none _ leg seq now⟩
  exact run_exhaustedSettled s acts hs.exhaustedSettled ((isExhausted_iff _).2 ⟨hd, hp, ha⟩)

theorem one_outcome_of_unanswered_dial :
    let s := Segment.opened "T" "CA1" "CA1" 0 "inbound" .ringing
    let target : DialTarget := ⟨.phone, "+15550100", "+15550100", none⟩
    let acts : List Act := [.start ⟨none, some "line", some 1, none, 0, some "dial", 1⟩ [target] none 30 false,
      .callerJoins (some 1) none, .register 1 "leg" target, .finish 1 0]
    let ends : List Act := [.legEnds "leg" (some 1) 5, .legEnds "leg" (some 1) 6, .dialEnds (some 1) 7]
    s.IsFresh ∧ (∀ a ∈ ends, a.isStart = false) ∧
      (s.run acts).decisions ends = [⟨"T", "CA1", .advance "line" 1 none⟩] ∧ ((s.run acts).decisions ends).length ≤ 1 ∧
      ((s.run acts).effect (.legEnds "leg" (some 1) 5)).decision = some ⟨"T", "CA1", .advance "line" 1 none⟩ ∧
      ((s.run acts).after (.legEnds "leg" (some 1) 5)).scratch.answeredLeg = none := by
  intro s target acts ends
  have hs : s.IsFresh := rfl
  have hends : ∀ a ∈ ends, a.isStart = false := by decide
  have hd : ((s.run acts).effect (.legEnds "leg" (some 1) 5)).decision = some ⟨"T", "CA1", .advance "line" 1 none⟩ := by
    decide
  refine ⟨hs, hends, by decide, ?_, hd, ?_⟩
  · exact (one_outcome_per_attempt s acts hs).2.1 ends hends
  · exact ((one_outcome_per_attempt s acts hs).2.2.1 _ _ hd).1
end Switchboard.Segment
