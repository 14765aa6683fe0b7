import Switchboard.Proofs.Attempt.FirstAnswer
import Switchboard.Proofs.Attempt.LateJoin
/-!
# Legs that ring on

A leg that rings is let go in four ways: its end is recorded, it is hung up, it answers, or a new attempt is started.  The
start of an attempt is the only one that leaves it ringing at the provider with nobody to hang it up
(`dropped_iff_start`).

Behind the answer nothing rings.  Behind the end of an attempt that nobody answered a leg may still be registered: it is not
hung up, and it rings until it ends or until the caller leaves once more (`rings_in_decided_attempt_iff`).
-/
namespace Switchboard.Segment

variable {s : Segment} {a : Act} {leg : String}

/-! ## Letting go of a leg -/

/-- A leg rings no more for the attempt, and nothing says why: its end is not recorded, it has not answered and it is not
hung up. -/
def Dropped (s : Segment) (a : Act) (leg : String) : Prop :=
  leg ∈ s.scratch.pendingLegs ∧ leg ∉ (s.after a).scratch.pendingLegs ∧ leg ∉ (s.effect a).hangUps ∧
    leg ∉ (s.after a).scratch.endedLegs ∧ (s.after a).scratch.answeredLeg ≠ some leg

/-- **A leg that rings goes on ringing** until it is hung up, its end is recorded, it answers or an attempt is started. -/
theorem pending_after (h : leg ∈ s.scratch.pendingLegs) (ha : a.isStart = false) :
    leg ∈ (s.after a).scratch.pendingLegs ∨ leg ∈ (s.effect a).hangUps ∨ leg ∈ (s.after a).scratch.endedLegs ∨
      (s.after a).scratch.answeredLeg = some leg := by
  cases a with
  | start => cases ha
  | callerJoins => rw [scratch_after_callerJoins]; split <;> exact .inl h
  | register =>
    rw [scratch_after_register]
    refine .inl ?_
    split
    · exact h
    · dsimp only
      split
      · exact List.mem_append_left _ h
      · exact h
  | finish => rw [scratch_after_finish]; split <;> simp [h]
  | agentJoins l seq now =>
    rw [scratch_after_agentJoins, hangUps_of_agentJoins]
    split
    · exact .inl h
    · by_cases hl : leg = l
      · exact .inr (.inr (.inr (congrArg some hl.symm)))
      · exact .inr (.inl (List.mem_filter.2 ⟨h, by simpa using hl⟩))
  | callerLeaves =>
    rw [scratch_after_callerLeaves, hangUps_of_callerLeaves]
    split
    · exact .inl h
    · exact .inr (.inl h)
  | legEnds l seq now =>
    rw [scratch_after_legEnds]
    split
    · exact .inl h
    · rw [claimed_pendingLegs, claimed_endedLegs]
      by_cases hl : leg = l
      · exact .inr (.inr (.inl (by simp [hl])))
      · exact .inl ((List.mem_erase_of_ne hl).2 h)
  | dialEnds =>
    rw [scratch_after_dialEnds, hangUps_of_dialEnds]
    split
    · exact .inl h
    · exact .inr (.inl h)

/-- **Of the legs that ring exactly the start of an attempt drops one**, and it drops every one. -/
theorem dropped_iff_start (h : leg ∈ s.scratch.pendingLegs) : s.Dropped a leg ↔ a.isStart = true := by
  constructor
  · rintro ⟨-, hgone, hasked, hended, hanswered⟩
    cases hstart : a.isStart with
    | true => rfl
    | false =>
      rcases pending_after h hstart with h | h | h | h
      · exact absurd h hgone
      · exact absurd h hasked
      · exact absurd h hended
      · exact absurd h hanswered
  · intro hstart
    cases a with
    | start => exact ⟨h, List.not_mem_nil, List.not_mem_nil, List.not_mem_nil, nofun⟩
    | _ => cases hstart

/-- **A leg that comes to ring is one that is registered** with the attempt and has not ended. -/
theorem register_of_pending (hbefore : leg ∉ s.scratch.pendingLegs) (h : leg ∈ (s.after a).scratch.pendingLegs) :
    leg ∉ s.scratch.endedLegs ∧ ∃ target, a = .register s.scratch.attemptSeq leg target := by
  cases a with
  | start => cases h
  | callerJoins => rw [scratch_after_callerJoins] at h; split at h <;> exact absurd h hbefore
  | register seq l target =>
    rw [scratch_after_register] at h
    split at h
    · exact absurd h hbefore
    · rename_i hseq
      dsimp only at h
      split at h
      · rename_i hopen
        rcases List.mem_append.1 h with h | h
        · exact absurd h hbefore
        · rw [List.mem_singleton.1 h]
          exact ⟨hopen.2, target, by rw [Classical.not_not.1 hseq]⟩
      · exact absurd h hbefore
  | finish => rw [scratch_after_finish] at h; split at h <;> simp_all
  | agentJoins =>
    rw [scratch_after_agentJoins] at h
    split at h
    · exact absurd h hbefore
    · cases h
  | callerLeaves =>
    rw [scratch_after_callerLeaves] at h
    split at h
    · exact absurd h hbefore
    · cases h
  | legEnds l seq now =>
    rw [scratch_after_legEnds] at h
    split at h
    · exact absurd h hbefore
    · rw [claimed_pendingLegs] at h
      exact absurd (List.mem_of_mem_erase h) hbefore
  | dialEnds =>
    rw [scratch_after_dialEnds] at h
    split at h
    · exact absurd h hbefore
    · rw [claimed_pendingLegs] at h
      cases h

/-- **A leg whose end comes to be recorded** rings once less. -/
theorem ended_after (h : leg ∈ (s.after a).scratch.endedLegs) :
    leg ∈ s.scratch.endedLegs ∨ (s.after a).scratch.pendingLegs = s.scratch.pendingLegs.erase leg := by
  cases a with
  | start => cases h
  | callerJoins => rw [scratch_after_callerJoins] at h; split at h <;> exact .inl h
  | register => rw [scratch_after_register] at h; split at h <;> exact .inl h
  | finish => rw [scratch_after_finish] at h; split at h <;> exact .inl (by simpa using h)
  | agentJoins => rw [scratch_after_agentJoins] at h; split at h <;> exact .inl h
  | callerLeaves => rw [scratch_after_callerLeaves] at h; split at h <;> exact .inl h
  | legEnds l seq now =>
    rw [scratch_after_legEnds] at h ⊢
    split at h
    · exact .inl h
    · rw [if_neg ‹_›]
      rw [claimed_endedLegs] at h
      rcases List.mem_append.1 h with h | h
      · exact .inl h
      · rw [List.mem_singleton.1 h, claimed_pendingLegs]
        exact .inr rfl
  | dialEnds => rw [scratch_after_dialEnds] at h; split at h <;> exact .inl (by simpa using h)

/-! ## Behind the answer -/

/-- Behind the answer nothing rings. -/
def AnswerQuiet (s : Segment) : Prop := s.scratch.answeredLeg ≠ none → s.scratch.pendingLegs = []

theorem after_answerQuiet (s : Segment) (a : Act) (h : s.AnswerQuiet) : (s.after a).AnswerQuiet := by
  intro hanswered
  cases ha : a.isStart with
  | true =>
    cases a with
    | start => rfl
    | _ => cases ha
  | false =>
    cases hs : s.scratch.answeredLeg with
    | some winner => exact (after_silent a ha hs (h (by rw [hs]; nofun))).1
    | none =>
      obtain ⟨winner, hw⟩ := Option.ne_none_iff_exists'.1 hanswered
      exact (hangUps_of_answer ha hs hw).2

theorem run_answerQuiet (s : Segment) (acts : List Act) (h : s.AnswerQuiet) : (s.run acts).AnswerQuiet :=
  run_induction (Q := fun _ => True) (fun s a _ => after_answerQuiet s a) acts s (fun _ _ => trivial) h

/-! ## Behind the end of an attempt -/

/-- **The act that settles an attempt leaves nothing ringing.** -/
theorem pending_of_settling (h0 : s.scratch.failureHandled = false) (h1 : (s.after a).scratch.failureHandled = true) :
    (s.after a).scratch.pendingLegs = [] := by
  -- where a claim settles the attempt, no leg is left to wait for
  have hclaim {sc : Scratch} (hsc : sc.failureHandled = false) (h : (claimed sc).failureHandled = true) :
      (claimed sc).pendingLegs = [] := by
    rw [claimed_failureHandled, hsc, Bool.false_or] at h
    rw [claimed_pendingLegs]
    exact ((isExhausted_iff sc).1 h).2.1
  cases a with
  | start => cases h1
  | callerJoins => rw [scratch_after_callerJoins] at h1; split at h1 <;> rw [h0] at h1 <;> cases h1
  | register => rw [scratch_after_register] at h1; split at h1 <;> rw [h0] at h1 <;> cases h1
  | agentJoins => rw [scratch_after_agentJoins] at h1; split at h1 <;> rw [h0] at h1 <;> cases h1
  | callerLeaves =>
    rw [scratch_after_callerLeaves] at h1 ⊢
    split at h1
    · rw [h0] at h1
      cases h1
    · rw [if_neg ‹_›]
  | finish =>
    rw [scratch_after_finish] at h1 ⊢
    split at h1
    · rw [h0] at h1
      cases h1
    · rw [if_neg ‹_›]
      exact hclaim h0 h1
  | legEnds =>
    rw [scratch_after_legEnds] at h1 ⊢
    split at h1
    · rw [h0] at h1
      cases h1
    · rw [if_neg ‹_›]
      exact hclaim h0 h1
  | dialEnds =>
    rw [scratch_after_dialEnds] at h1 ⊢
    split at h1
    · rw [h0] at h1
      cases h1
    · rw [if_neg ‹_›]
      exact hclaim h0 h1

/-- Whether a run registers a leg with the attempt that it ends in, at a point where that attempt was settled. -/
def RegisteredLate (s : Segment) (acts : List Act) (leg : String) : Prop :=
  ∃ pre target post, acts = pre ++ .register (s.run pre).scratch.attemptSeq leg target :: post ∧
    (s.run pre).scratch.failureHandled = true ∧ ∀ b ∈ post, b.isStart = false

/-- **What rings behind the end of an attempt** rang there already, or was registered late. -/
theorem pending_of_settled : ∀ (acts : List Act) (s : Segment), (s.run acts).scratch.failureHandled = true →
    leg ∈ (s.run acts).scratch.pendingLegs →
      (s.scratch.failureHandled = true ∧ leg ∈ s.scratch.pendingLegs ∧ ∀ b ∈ acts, b.isStart = false) ∨
        s.RegisteredLate acts leg
  | [], _, hsettled, hrings => .inl ⟨hsettled, hrings, fun _ hb => nomatch hb⟩
  | a :: acts, s, hsettled, hrings => by
    rcases pending_of_settled acts (s.after a) hsettled hrings with ⟨h1, hleg, hacts⟩ | ⟨pre, target, post, rfl, hlate⟩
    · cases h0 : s.scratch.failureHandled with
      | false =>
        rw [pending_of_settling h0 h1] at hleg
        cases hleg
      | true =>
        have ha : a.isStart = false := by
          cases a with
          | start => cases h1
          | _ => rfl
        by_cases hbefore : leg ∈ s.scratch.pendingLegs
        · exact .inl ⟨rfl, hbefore, List.forall_mem_cons.2 ⟨ha, hacts⟩⟩
        · obtain ⟨-, target, rfl⟩ := register_of_pending hbefore hleg
          exact .inr ⟨[], target, acts, rfl, h0, hacts⟩
    · exact .inr ⟨a :: pre, target, post, rfl, hlate⟩

/-- A leg that rings, is not hung up, does not end and does not answer rings on until a new attempt is started. -/
theorem pending_of_run : ∀ (acts : List Act) (s : Segment), (∀ a ∈ acts, a.isStart = false) →
    leg ∈ s.scratch.pendingLegs → leg ∉ s.hangUps acts → leg ∉ (s.run acts).scratch.endedLegs →
      (s.run acts).scratch.answeredLeg = none → leg ∈ (s.run acts).scratch.pendingLegs
  | [], _, _, h, _, _, _ => h
  | a :: acts, s, hacts, h, hasked, hended, hanswered => by
    obtain ⟨ha, hrest⟩ := List.forall_mem_cons.1 hacts
    rw [show a :: acts = [a] ++ acts from rfl, hangUps_append, hangUps_singleton, List.mem_append, not_or] at hasked
    refine pending_of_run acts (s.after a) hrest ?_ hasked.2 hended hanswered
    rcases pending_after h ha with h | h | h | h
    · exact h
    · exact absurd h hasked.1
    · exact absurd (run_endedLegs _ acts hrest h) hended
    · rw [run_cons, run_answeredLeg _ acts hrest h] at hanswered
      cases hanswered

/-- **A leg that is registered late rings on** while it does not end, is not hung up and nobody answers. -/
theorem pending_of_registeredLate {acts : List Act} (h : s.RegisteredLate acts leg)
    (hlive : leg ∉ (s.run acts).scratch.endedLegs) (hkept : leg ∉ s.hangUps acts)
    (hanswered : (s.run acts).scratch.answeredLeg = none) : leg ∈ (s.run acts).scratch.pendingLegs := by
  obtain ⟨pre, target, post, rfl, -, hpost⟩ := h
  generalize hr : (s.run pre).scratch.attemptSeq = seq at hlive hkept hanswered ⊢
  have hacts : ∀ b ∈ Act.register seq leg target :: post, b.isStart = false := List.forall_mem_cons.2 ⟨rfl, hpost⟩
  rw [run_append] at hlive hanswered ⊢
  rw [hangUps_append, show Act.register seq leg target :: post = [.register seq leg target] ++ post from rfl,
    hangUps_append, List.mem_append, List.mem_append, not_or, not_or] at hkept
  rw [run_cons] at hlive hanswered ⊢
  refine pending_of_run post _ hpost ?_ hkept.2.2 hlive hanswered
  have hopen : (s.run pre).scratch.answeredLeg = none ∧ leg ∉ (s.run pre).scratch.endedLegs := by
    constructor
    · cases h : (s.run pre).scratch.answeredLeg with
      | none => rfl
      | some winner =>
        rw [← run_cons, run_answeredLeg _ _ hacts h] at hanswered
        cases hanswered
    · exact fun h => hlive (run_endedLegs _ _ hacts h)
  rw [scratch_after_register, if_neg (not_not_intro hr), if_pos hopen]
  exact List.mem_append_right _ List.mem_cons_self

theorem run_covered : ∀ (acts : List Act) (s : Segment) (asked registered : List String), s.Covered asked registered →
    (s.run acts).Covered (asked ++ s.hangUps acts) (registered ++ registrations acts)
  | [], s, asked, registered, h => by
    rw [show s.hangUps [] = [] from rfl, show registrations [] = [] from rfl, List.append_nil, List.append_nil]
    exact h
  | a :: acts, s, asked, registered, h => by
    have hrest := run_covered acts (s.after a) _ _ (after_covered a h)
    rw [List.append_assoc, List.append_assoc] at hrest
    exact hrest

/-- **No act records the end of a leg that rings on**, where no leg rings twice. -/
theorem after_pending_live {asked registered : List String} (hcovered : s.Covered asked registered)
    (hn : registered.Nodup) (hlive : ∀ leg ∈ s.scratch.pendingLegs, leg ∉ s.scratch.endedLegs) :
    ∀ leg ∈ (s.after a).scratch.pendingLegs, leg ∉ (s.after a).scratch.endedLegs := by
  intro leg hleg hended
  rcases ended_after hended with hended | herased
  · by_cases hbefore : leg ∈ s.scratch.pendingLegs
    · exact hlive leg hbefore hended
    · exact (register_of_pending hbefore hleg).1 hended
  · -- the leg that ends rang once at most, so it rings no more
    have hone : registered.count leg ≤ 1 := List.nodup_iff_count.1 hn leg
    have hrings := hcovered leg
    have hpos := List.count_pos_iff.2 hleg
    rw [herased, List.count_erase_self] at hpos
    omega

/-- **No leg rings whose end is recorded**, if none is registered twice. -/
theorem run_pending_live : ∀ (acts : List Act) (s : Segment) (asked registered : List String),
    s.Covered asked registered → (registered ++ registrations acts).Nodup →
      (∀ leg ∈ s.scratch.pendingLegs, leg ∉ s.scratch.endedLegs) →
        ∀ leg ∈ (s.run acts).scratch.pendingLegs, leg ∉ (s.run acts).scratch.endedLegs
  | [], _, _, _, _, _, hlive => hlive
  | a :: acts, s, asked, registered, hcovered, hn, hlive => by
    rw [registrations, List.flatMap_cons, ← List.append_assoc] at hn
    have hregistered := (List.nodup_append.1 (List.nodup_append.1 hn).1).1
    exact run_pending_live acts (s.after a) _ _ (after_covered a hcovered) hn
      (after_pending_live hcovered hregistered hlive)

/-- **What rings on in a decided attempt.**  Of every run of a fresh segment in which no leg is registered twice: once an
attempt is answered nothing rings, and a leg registered then is hung up unless it is the one that answered or has ended.
Once an attempt is settled that nobody answered, exactly those legs ring that were registered with it since then, have not
ended and were not hung up; a leg registered then is not hung up, and rings unless it has ended. -/
theorem rings_in_decided_attempt_iff (s : Segment) (acts : List Act) (hs : s.IsFresh) (hn : (registrations acts).Nodup) :
    let t := s.run acts
    (∀ winner, t.scratch.answeredLeg = some winner → t.scratch.pendingLegs = [] ∧ ∀ leg target,
      (t.effect (.register t.scratch.attemptSeq leg target)).hangUps =
          (if leg = winner ∨ leg ∈ t.scratch.endedLegs then [] else [leg]) ∧
        (t.after (.register t.scratch.attemptSeq leg target)).scratch.pendingLegs = []) ∧
    (t.scratch.failureHandled = true → t.scratch.answeredLeg = none →
      (∀ leg, leg ∈ t.scratch.pendingLegs ↔
        s.RegisteredLate acts leg ∧ leg ∉ t.scratch.endedLegs ∧ leg ∉ s.hangUps acts) ∧
      ∀ leg target, (t.effect (.register t.scratch.attemptSeq leg target)).hangUps = [] ∧
        (t.after (.register t.scratch.attemptSeq leg target)).scratch.pendingLegs =
          if leg ∈ t.scratch.endedLegs then t.scratch.pendingLegs else t.scratch.pendingLegs ++ [leg]) := by
  intro t
  have hpending : s.scratch.pendingLegs = [] := by rw [hs]; rfl
  have hopen : s.scratch.failureHandled = false := by rw [hs]; rfl
  have hcovered : s.Covered [] [] := fun leg => by rw [hpending]; exact Nat.le_refl 0
  refine ⟨fun winner hw => ?_, fun hsettled hunanswered => ⟨fun leg => ⟨fun hrings => ?_, ?_⟩, fun leg target => ?_⟩⟩
  · have hquiet : t.scratch.pendingLegs = [] := run_answerQuiet s acts (fun _ => hpending) (by rw [hw]; nofun)
    refine ⟨hquiet, fun leg target => ⟨hangUps_of_register_answered hw leg target, ?_⟩⟩
    exact (after_silent _ rfl hw hquiet).1
  · refine ⟨?_, ?_, fun hasked => ?_⟩
    · rcases pending_of_settled acts s hsettled hrings with ⟨hs, -⟩ | hlate
      · rw [hopen] at hs
        cases hs
      · exact hlate
    · exact run_pending_live acts s [] [] hcovered hn (fun leg hleg => by rw [hpending] at hleg; cases hleg) leg hrings
    · have hcount := run_covered acts s [] [] hcovered leg
      have hone := List.nodup_iff_count.1 hn leg
      have hringing : 0 < (s.run acts).scratch.pendingLegs.count leg := List.count_pos_iff.2 hrings
      have hhung := List.count_pos_iff.2 hasked
      rw [List.nil_append, List.nil_append] at hcount
      omega
  · exact fun ⟨hlate, hlive, hkept⟩ => pending_of_registeredLate hlate hlive hkept hunanswered
  · rw [hangUps_of_register, scratch_after_register, if_neg (not_not_intro rfl), if_neg (not_not_intro rfl), hunanswered]
    by_cases he : leg ∈ t.scratch.endedLegs <;> simp [he]

theorem leg_rings_on_behind_the_caller :
    let s := Segment.opened "T" "CA1" "CA1" 0 "inbound" .ringing
    let target : DialTarget := ⟨.phone, "+15550100", "+15550100", none⟩
    let pre : List Act := [.start ⟨none, some "line", some 1, none, 0, some "dial", 1⟩ [target] none 30 false,
      .callerJoins (some 1) none, .callerLeaves (some 1)]
    let acts := pre ++ [.register 1 "leg" target, .finish 1 0]
    s.IsFresh ∧ (registrations acts).Nodup ∧ (s.run acts).scratch.failureHandled = true ∧
      (s.run acts).scratch.answeredLeg = none ∧ "leg" ∈ (s.run acts).scratch.pendingLegs ∧ s.hangUps acts = [] := by
  intro s target pre acts
  have hs : s.IsFresh := rfl
  have hn : (registrations acts).Nodup := by decide
  have hsettled : (s.run acts).scratch.failureHandled = true := by decide
  have hunanswered : (s.run acts).scratch.answeredLeg = none := by decide
  have hlate : s.RegisteredLate acts "leg" := ⟨pre, target, [.finish 1 0], by decide, by decide, by decide⟩
  have hrings := ((rings_in_decided_attempt_iff s acts hs hn).2 hsettled hunanswered).1 "leg"
  exact ⟨hs, hn, hsettled, hunanswered, hrings.2 ⟨hlate, by decide, by decide⟩, by decide⟩

end Switchboard.Segment
