import Switchboard.Proofs.Attempt.FirstAnswer
import Switchboard.Proofs.Service.Mutation
/-!
# Acts as changes of a stored segment

Every act of an attempt is a change that a conditional write stores whole: it asks nothing of the revision, and what it
leaves alone is what the write leaves alone.  So a run of acts goes on from a stored segment as from any other.
-/
namespace Switchboard.Segment

open Time (Instant)

@[simp] theorem revised_scratch (s : Segment) (k : Int) : (s.revised k).scratch = s.scratch := rfl

@[simp] theorem revised_isClosed (s : Segment) (k : Int) : (s.revised k).isClosed = s.isClosed := rfl

@[simp] theorem revised_withScratch (s : Segment) (k : Int) (g : Scratch → Scratch) :
    (s.revised k).withScratch g = (s.withScratch g).revised k := rfl

/-- **A claim of the decision is a change**, behind any change of the scratch record. -/
theorem isChange_claimFailure (g : Scratch → Scratch) (now : Instant) :
    IsChange fun s => (s.withScratch g).claimFailure now where
  revised s k := by
    have hd : ((s.withScratch g).revised k).decisionAfterFailure = (s.withScratch g).decisionAfterFailure := rfl
    unfold claimFailure
    rw [revised_withScratch, revised_scratch]
    by_cases hc : ((s.withScratch g).scratch.failureHandled || !(s.withScratch g).scratch.isExhausted) = true
    · rw [if_pos hc, if_pos hc]
    · rw [if_neg hc, if_neg hc]
      dsimp only
      cases ht : ((s.withScratch g).withScratch fun sc =>
        { sc with attemptFailed := true, failureHandled := true }).decisionAfterFailure.isTerminate
      · rw [if_neg Bool.false_ne_true]
        exact if_neg (by rw [revised_withScratch]; exact fun h => by cases ht.symm.trans h)
      · rw [if_pos rfl]
        exact if_pos ht
  overwriting s := by
    unfold claimFailure
    dsimp only
    repeat' split
    all_goals rfl

theorem isChange_callerJoined (seq : Option Int) (conferenceSid : Option String) :
    IsChange (callerJoined seq conferenceSid) where
  revised s k := by
    unfold callerJoined
    rw [revised_scratch]
    cases s.scratch.isOther seq <;> cases Flow.given conferenceSid <;> cases hd : s.scratch.dialed <;>
      cases ha : s.scratch.agentDialedFromTransfer <;> simp [hd, ha] <;> rfl
  overwriting s := by
    unfold callerJoined
    cases Flow.given conferenceSid <;> dsimp only <;> repeat' split
    all_goals rfl

theorem isChange_registerLeg (seq : Int) (leg : String) (target : DialTarget) :
    IsChange (registerLeg seq leg target) where
  revised s k := by
    unfold registerLeg
    rw [revised_scratch]
    by_cases hseq : s.scratch.attemptSeq = seq
    · rw [if_neg (not_not_intro hseq), if_neg (not_not_intro hseq)]
      cases ha : s.scratch.answeredLeg with
      | none => by_cases he : leg ∈ s.scratch.endedLegs <;> simp [ha, he, withScratch] <;> rfl
      | some l =>
        by_cases hl : l = leg
        · cases hb : s.answeredBy <;> cases target.identity <;> simp [ha, hl, hb, withScratch, revised]
        · simp [ha, hl, withScratch]
          rfl
    · rw [if_pos hseq, if_pos hseq]
  overwriting s := by
    unfold registerLeg
    dsimp only
    repeat' split
    all_goals rfl

theorem isChange_agentAnswered (leg : String) (seq : Option Int) (now : Instant) :
    IsChange (agentAnswered leg seq now) where
  revised s k := by
    unfold agentAnswered
    rw [revised_scratch, revised_isClosed]
    cases s.scratch.isOther seq <;> cases s.scratch.answeredLeg.isSome <;> cases s.isClosed <;> rfl
  overwriting s := by
    unfold agentAnswered
    repeat' split
    all_goals rfl

theorem isChange_terminatePending (seq : Option Int) : IsChange (terminatePending seq) where
  revised s k := by
    unfold terminatePending
    rw [revised_scratch]
    cases s.scratch.isOther seq <;> rfl
  overwriting s := by
    unfold terminatePending
    split <;> rfl

theorem isChange_finishDialing (seq : Int) (now : Instant) : IsChange (finishDialing seq now) where
  revised s k := by
    unfold finishDialing
    rw [(isChange_claimFailure _ now).revised, revised_scratch]
    by_cases hseq : s.scratch.attemptSeq = seq
    · rw [if_neg (not_not_intro hseq), if_neg (not_not_intro hseq)]
    · rw [if_pos hseq, if_pos hseq]
  overwriting s := by
    unfold finishDialing
    split
    · rfl
    · exact (isChange_claimFailure _ now).overwriting s

theorem isChange_legEnded (leg : String) (seq : Option Int) (now : Instant) : IsChange (legEnded leg seq now) where
  revised s k := by
    unfold legEnded
    rw [(isChange_claimFailure _ now).revised, revised_scratch]
    cases s.scratch.isOther seq <;> cases s.scratch.endedLegs.contains leg <;> rfl
  overwriting s := by
    unfold legEnded
    split
    · rfl
    · split
      · rfl
      · exact (isChange_claimFailure _ now).overwriting s

theorem isChange_claimAfterDial (seq : Option Int) (now : Instant) : IsChange (claimAfterDial seq now) where
  revised s k := by
    unfold claimAfterDial
    rw [(isChange_claimFailure _ now).revised, revised_scratch]
    cases s.scratch.isOther seq <;> cases (s.scratch.answeredLeg.isSome || s.scratch.failureHandled) <;> rfl
  overwriting s := by
    unfold claimAfterDial
    split
    · rfl
    · split
      · rfl
      · exact (isChange_claimFailure _ now).overwriting s

/-- **No act asks for the revision.** -/
theorem perform_revised (s : Segment) (a : Act) (k : Int) :
    (s.revised k).perform a = ((s.after a).revised k, s.effect a) := by
  unfold after effect perform
  cases a with
  | start => rfl
  | callerJoins => simp only [(isChange_callerJoined _ _).revised]
  | register => simp only [(isChange_registerLeg _ _ _).revised]
  | finish => simp only [(isChange_finishDialing _ _).revised]
  | agentJoins => simp only [(isChange_agentAnswered _ _ _).revised]
  | callerLeaves => simp only [(isChange_terminatePending _).revised]
  | legEnds => simp only [(isChange_legEnded _ _ _).revised]
  | dialEnds => simp only [(isChange_claimAfterDial _ _).revised]

/-- **An act leaves alone what a conditional write leaves alone.** -/
theorem overwriting_after (s : Segment) (a : Act) : s.overwriting (s.after a) = s.after a := by
  unfold after perform
  cases a with
  | start => rfl
  | callerJoins => exact (isChange_callerJoined _ _).overwriting s
  | register => exact (isChange_registerLeg _ _ _).overwriting s
  | finish => exact (isChange_finishDialing _ _).overwriting s
  | agentJoins => exact (isChange_agentAnswered _ _ _).overwriting s
  | callerLeaves => exact (isChange_terminatePending _).overwriting s
  | legEnds => exact (isChange_legEnded _ _ _).overwriting s
  | dialEnds => exact (isChange_claimAfterDial _ _).overwriting s

theorem after_rootSid (s : Segment) (a : Act) : (s.after a).rootSid = s.rootSid := by
  rw [← overwriting_after]
  rfl

theorem after_number (s : Segment) (a : Act) : (s.after a).number = s.number := by
  rw [← overwriting_after]
  rfl

theorem run_rootSid (s : Segment) (acts : List Act) : (s.run acts).rootSid = s.rootSid :=
  run_induction (P := fun t => t.rootSid = s.rootSid) (Q := fun _ => True)
    (fun t a _ ht => (after_rootSid t a).trans ht) acts s (fun _ _ => trivial) rfl

theorem run_number (s : Segment) (acts : List Act) : (s.run acts).number = s.number :=
  run_induction (P := fun t => t.number = s.number) (Q := fun _ => True)
    (fun t a _ ht => (after_number t a).trans ht) acts s (fun _ _ => trivial) rfl

theorem after_revised (s : Segment) (a : Act) (k : Int) : (s.revised k).after a = (s.after a).revised k := by
  rw [after, perform_revised]

theorem effect_revised (s : Segment) (a : Act) (k : Int) : (s.revised k).effect a = s.effect a := by
  rw [effect, perform_revised]

theorem run_revised : ∀ (acts : List Act) (s : Segment) (k : Int), (s.revised k).run acts = (s.run acts).revised k
  | [], _, _ => rfl
  | a :: acts, s, k => by rw [run_cons, run_cons, after_revised, run_revised acts]

theorem effects_revised : ∀ (acts : List Act) (s : Segment) (k : Int), (s.revised k).effects acts = s.effects acts
  | [], _, _ => rfl
  | a :: acts, s, k => by rw [effects, effects, effect_revised, after_revised, effects_revised acts]

theorem decisions_revised (acts : List Act) (s : Segment) (k : Int) : (s.revised k).decisions acts = s.decisions acts := by
  unfold decisions
  rw [effects_revised]

/-- **A leg that neither rang nor is registered** is not hung up by an act, and does not ring behind it. -/
theorem not_mem_of_after {s : Segment} {a : Act} {leg : String} (hp : leg ∉ s.scratch.pendingLegs)
    (ha : leg ∉ a.registers) : leg ∉ (s.effect a).hangUps ∧ leg ∉ (s.after a).scratch.pendingLegs := by
  have hcovered : s.Covered [] s.scratch.pendingLegs := fun l => by
    rw [List.count_nil]
    omega
  exact (after_covered a hcovered).not_mem fun hm => (List.mem_append.1 hm).elim hp ha

end Switchboard.Segment
