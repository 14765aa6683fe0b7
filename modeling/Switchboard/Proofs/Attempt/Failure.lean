import Switchboard.Proofs.Attempt.Decision
/-!
# The failure of an attempt

Which end of a leg, and which end of dialing, takes the decision of a failed attempt, and what the decision does to the
segment.  A closed segment goes on taking acts: nobody answers it any more and its status stays, but an attempt that was
open when the segment was closed may still fail.
-/
namespace Switchboard.Segment

open Time (Instant)

/-! ## When an attempt fails -/

theorem claimFailure_isSome (s : Segment) (now : Instant) :
    (s.claimFailure now).2.isSome = true ↔ s.scratch.failureHandled = false ∧ s.scratch.isExhausted = true := by
  rw [claimFailure_decision]
  cases s.scratch.failureHandled <;> cases s.scratch.isExhausted <;> simp

theorem legEnded_of_skipped {s : Segment} {leg : String} {seq : Option Int} (now : Instant)
    (h : s.scratch.isOther seq = true ∨ leg ∈ s.scratch.endedLegs) : s.legEnded leg seq now = (s, none) := by
  unfold legEnded
  rcases h with h | h
  · rw [if_pos h]
  · rw [if_pos (List.contains_iff_mem.2 h)]
    split <;> rfl

theorem legEnded_of_counted {s : Segment} {leg : String} {seq : Option Int} (now : Instant)
    (ho : s.scratch.isOther seq = false) (he : leg ∉ s.scratch.endedLegs) :
    s.legEnded leg seq now = (s.withScratch fun sc =>
      { sc with endedLegs := sc.endedLegs ++ [leg], pendingLegs := sc.pendingLegs.erase leg }).claimFailure now := by
  unfold legEnded
  rw [if_neg (Bool.eq_false_iff.1 ho), if_neg (fun h => he (List.contains_iff_mem.1 h))]

theorem claimAfterDial_of_skipped {s : Segment} {seq : Option Int} (now : Instant)
    (h : s.scratch.isOther seq = true ∨ s.scratch.answeredLeg.isSome = true ∨ s.scratch.failureHandled = true) :
    s.claimAfterDial seq now = (s, [], none) := by
  unfold claimAfterDial
  rcases h with h | h
  · rw [if_pos h]
  · rw [if_pos (Bool.or_eq_true_iff.2 h)]
    split <;> rfl

theorem claimAfterDial_of_counted {s : Segment} {seq : Option Int} (now : Instant)
    (h : ¬ (s.scratch.isOther seq = true ∨ s.scratch.answeredLeg.isSome = true ∨ s.scratch.failureHandled = true)) :
    s.claimAfterDial seq now =
      (((s.withScratch fun sc => { sc with pendingLegs := [], dialComplete := true }).claimFailure now).1,
        s.scratch.pendingLegs,
        ((s.withScratch fun sc => { sc with pendingLegs := [], dialComplete := true }).claimFailure now).2) := by
  rw [not_or] at h
  unfold claimAfterDial
  rw [if_neg h.1, if_neg (mt Bool.or_eq_true_iff.1 h.2)]

/-- **The end of a leg takes the decision** exactly where it was the last that an open attempt waited for. -/
theorem decision_legEnds_isSome (s : Segment) (leg : String) (seq : Option Int) (now : Instant) :
    (s.effect (.legEnds leg seq now)).decision.isSome = true ↔
      s.scratch.isOther seq = false ∧ leg ∉ s.scratch.endedLegs ∧ s.scratch.failureHandled = false ∧
        s.scratch.dialComplete = true ∧ s.scratch.pendingLegs.erase leg = [] ∧ s.scratch.answeredLeg = none := by
  show (s.legEnded leg seq now).2.isSome = true ↔ _
  by_cases hskip : s.scratch.isOther seq = true ∨ leg ∈ s.scratch.endedLegs
  · rw [legEnded_of_skipped now hskip]
    refine ⟨nofun, fun h => ?_⟩
    rcases hskip with ho | he
    · rw [h.1] at ho
      cases ho
    · exact absurd he h.2.1
  · rw [not_or, Bool.not_eq_true] at hskip
    rw [legEnded_of_counted now hskip.1 hskip.2, claimFailure_isSome, isExhausted_iff]
    exact ⟨fun h => ⟨hskip.1, hskip.2, h⟩, fun h => h.2.2⟩

/-- **The end of dialing takes the decision** exactly where an open attempt is left without a leg that rings. -/
theorem decision_finish_isSome (s : Segment) (now : Instant) :
    (s.effect (.finish s.scratch.attemptSeq now)).decision.isSome = true ↔
      s.scratch.failureHandled = false ∧ s.scratch.pendingLegs = [] ∧ s.scratch.answeredLeg = none := by
  show (s.finishDialing s.scratch.attemptSeq now).2.isSome = true ↔ _
  rw [finishDialing, if_neg (not_not_intro rfl), claimFailure_isSome, isExhausted_iff]
  exact and_congr_right fun _ => ⟨fun h => h.2, fun h => ⟨rfl, h⟩⟩

/-- **Where a decision ends the call**, the segment has taken as long as it has until then; else its duration stays. -/
theorem claimFailure_duration (s : Segment) (now : Instant) :
    (s.claimFailure now).1.duration =
      if (s.claimFailure now).2.any Decision.isTerminate then some (s.elapsed (.utc now)) else s.duration := by
  unfold claimFailure
  by_cases hc : (s.scratch.failureHandled || !s.scratch.isExhausted) = true
  · rw [if_pos hc]
    rfl
  · rw [if_neg hc]
    dsimp only
    split
    · rename_i ht
      rw [Option.any_some, if_pos ht]
      rfl
    · rename_i ht
      rw [Option.any_some, if_neg ht]
      rfl

theorem after_duration_of_legEnds (s : Segment) (leg : String) (seq : Option Int) (now : Instant) :
    (s.after (.legEnds leg seq now)).duration =
      if (s.effect (.legEnds leg seq now)).decision.any Decision.isTerminate then some (s.elapsed (.utc now))
      else s.duration := by
  show (s.legEnded leg seq now).1.duration = if (s.legEnded leg seq now).2.any Decision.isTerminate then _ else _
  by_cases hskip : s.scratch.isOther seq = true ∨ leg ∈ s.scratch.endedLegs
  · rw [legEnded_of_skipped now hskip]
    rfl
  · rw [not_or, Bool.not_eq_true] at hskip
    rw [legEnded_of_counted now hskip.1 hskip.2]
    exact claimFailure_duration _ now

theorem after_duration_of_finish (s : Segment) (now : Instant) :
    (s.after (.finish s.scratch.attemptSeq now)).duration =
      if (s.effect (.finish s.scratch.attemptSeq now)).decision.any Decision.isTerminate then
        some (s.elapsed (.utc now))
      else s.duration := by
  have heq : s.finishDialing s.scratch.attemptSeq now =
      (s.withScratch fun sc => { sc with dialComplete := true }).claimFailure now := if_neg (not_not_intro rfl)
  show (s.finishDialing _ now).1.duration = if (s.finishDialing _ now).2.any Decision.isTerminate then _ else _
  rw [heq]
  exact claimFailure_duration _ now

/-- **What a decision asks of a column that durations must fit.**  Only a decision that ends the call writes one. -/
theorem duration_fits_iff {s t : Segment} {e : Effect} {d : Decision} {now : Instant} {fits : Int → Bool}
    (hd : e.decision = some d) (hmove : d.move = s.moveAfterFailure) (hrange : s.duration.all fits = true)
    (ht : t.duration = if e.decision.any Decision.isTerminate then some (s.elapsed (.utc now)) else s.duration) :
    t.duration.all fits = true ↔ (s.moveAfterFailure = .terminate → fits (s.elapsed (.utc now)) = true) := by
  rw [ht, hd, Option.any_some, Decision.isTerminate, hmove]
  by_cases hm : s.moveAfterFailure = .terminate
  · rw [if_pos (decide_eq_true hm)]
    simp [hm]
  · rw [if_neg (by simpa using hm)]
    simp [hm, hrange]

/-! ## A segment that was handed on -/

/-- A closed segment that is still marked as handed on if anybody has answered it. -/
def HandedOn (s : Segment) : Prop :=
  s.isClosed = true ∧ (s.scratch.answeredLeg.isSome = true → s.status = .transferred)

theorem handedOn_of_transferred {s : Segment} (h : s.status = .transferred) : s.HandedOn :=
  ⟨by rw [isClosed, h]; rfl, fun _ => h⟩

/-- **No act changes the status of a closed segment that was answered.** -/
theorem after_status_of_closed {s : Segment} (a : Act) (hc : s.isClosed = true)
    (ha : s.scratch.answeredLeg.isSome = true) : (s.after a).status = s.status := by
  have hexhausted : ∀ g : Scratch → Scratch, (g s.scratch).answeredLeg = s.scratch.answeredLeg →
      (s.withScratch g).scratch.isExhausted = false := fun g hg => by
    show (g s.scratch).isExhausted = false
    rw [Scratch.isExhausted, hg, ← Option.not_isSome, ha, Bool.not_true, Bool.and_false]
  unfold after perform
  cases a with
  | start => rfl
  | callerJoins seq conferenceSid =>
    simp only [callerJoined]
    cases Flow.given conferenceSid <;> repeat' split
    all_goals rfl
  | register seq leg target =>
    simp only [registerLeg]
    repeat' split
    all_goals rfl
  | finish seq now =>
    simp only [finishDialing]
    split
    · rfl
    · rw [claimFailure_of_settled _ now (.inr (hexhausted _ rfl))]
      rfl
  | agentJoins leg seq now =>
    simp only [agentAnswered, hc, Bool.or_true, if_true]
    split <;> rfl
  | callerLeaves seq =>
    simp only [terminatePending]
    split <;> rfl
  | legEnds leg seq now =>
    simp only [legEnded]
    split
    · rfl
    · split
      · rfl
      · rw [claimFailure_of_settled _ now (.inr (hexhausted _ rfl))]
        rfl
  | dialEnds seq now =>
    simp only [claimAfterDial, ha, Bool.true_or, if_true]
    split <;> rfl

/-- **Nobody answers a closed segment.** -/
theorem after_answeredLeg_of_closed {s : Segment} (a : Act) (hstart : a.isStart = false) (hc : s.isClosed = true) :
    (s.after a).scratch.answeredLeg = s.scratch.answeredLeg := by
  cases hs : s.scratch.answeredLeg with
  | some leg => exact after_answeredLeg s a hstart hs
  | none =>
    cases hafter : (s.after a).scratch.answeredLeg with
    | none => rfl
    | some leg =>
      obtain ⟨seq, now, -, -, hopen⟩ := answeredLeg_of_after hstart hs hafter
      rw [hc] at hopen
      cases hopen

theorem after_handedOn {s : Segment} (a : Act) (hstart : a.isStart = false) (h : s.HandedOn) : (s.after a).HandedOn := by
  refine ⟨?_, fun hans => ?_⟩
  · rw [after_isClosed, h.1, Bool.true_or]
  · rw [after_answeredLeg_of_closed a hstart h.1] at hans
    rw [after_status_of_closed a h.1 hans]
    exact h.2 hans

/-- **An answered attempt takes no decision.** -/
theorem decisions_of_answered : ∀ (acts : List Act) (s : Segment), (∀ a ∈ acts, a.isStart = false) →
    s.scratch.answeredLeg.isSome = true → s.decisions acts = []
  | [], _, _, _ => rfl
  | a :: acts, s, hacts, h => by
    obtain ⟨leg, hleg⟩ := Option.isSome_iff_exists.1 h
    have hafter := after_answeredLeg s a (hacts a List.mem_cons_self) hleg
    have hnone : (s.effect a).decision = none := by
      cases hd : (s.effect a).decision with
      | none => rfl
      | some d =>
        rw [(exhausted_of_decision hd).1] at hafter
        cases hafter
    rw [decisions_cons, hnone,
      decisions_of_answered acts (s.after a) (fun b hb => hacts b (List.mem_cons_of_mem _ hb)) (by rw [hafter]; rfl)]
    rfl

theorem run_handedOn {s : Segment} (acts : List Act) (hacts : ∀ a ∈ acts, a.isStart = false) (h : s.HandedOn) :
    (s.run acts).HandedOn :=
  run_induction (Q := fun a => a.isStart = false) (fun _ a ha hs => after_handedOn a ha hs) acts s hacts h

/-- **A settled or answered attempt takes no decision.** -/
theorem decisions_of_closed_attempt {s : Segment} {acts : List Act} (hacts : ∀ a ∈ acts, a.isStart = false)
    (h : s.scratch.failureHandled = true ∨ s.scratch.answeredLeg.isSome = true) : s.decisions acts = [] :=
  h.elim (decisions_of_settled acts s hacts) (decisions_of_answered acts s hacts)

end Switchboard.Segment
