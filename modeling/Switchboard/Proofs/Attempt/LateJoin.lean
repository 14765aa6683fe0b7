import Switchboard.Proofs.Attempt.Step
/-!
# Joins behind the end of an attempt

An attempt is settled once its decision was taken or the caller left.  An agent may still join then.  Whether that join
counts does not hang on the attempt: it hangs on whether the segment is closed, and only a decision that ends the call
closes it.  `late_join_passed_over_iff` says of every later point of every run whether a join changes anything.
-/
namespace Switchboard.Segment

/-- The leg that an act brings into the conference of an attempt, as a join that the attempt takes for its own. -/
def Act.joined? (attempt : Int) : Act → Option String
  | agentJoins leg seq _ => if seq.all (· = attempt) then some leg else none
  | _ => none

/-! ## The join of an agent -/

theorem agentJoins_passed_over {s : Segment} {leg : String} {seq : Option Int} {now : Time.Instant}
    (h : s.scratch.isOther seq = true ∨ s.scratch.answeredLeg.isSome = true ∨ s.isClosed = true) :
    s.perform (.agentJoins leg seq now) = (s, {}) := by
  simp only [perform, agentAnswered]
  rcases h with h | h | h
  · rw [if_pos h]
  · rw [h, Bool.true_or]
    split <;> rfl
  · rw [h, Bool.or_true]
    split <;> rfl

/-- **A join that counts** answers the attempt: it sets the status, the time of the answer and, where the leg is known for
somebody's, who answered.  It settles nothing. -/
theorem agentJoins_counts {s : Segment} (leg : String) {seq : Option Int} (now : Time.Instant)
    (ho : s.scratch.isOther seq = false) (ha : s.scratch.answeredLeg = none) (hc : s.isClosed = false) :
    let t := s.after (.agentJoins leg seq now)
    t.scratch.answeredLeg = some leg ∧ t.scratch.failureHandled = s.scratch.failureHandled ∧
      t.status = .inProgress ∧ t.answeredAt = some (s.answeredAt.getD (.utc now)) ∧
      t.answeredBy = ((s.scratch.identityOf leg).map Identity.tenantUserId).or s.answeredBy := by
  have hid : (s.withScratch fun sc => { sc with answeredLeg := some leg, pendingLegs := [] }).scratch.identityOf leg =
      s.scratch.identityOf leg := rfl
  simp only [after, perform, agentAnswered]
  rw [ho, ha, hc, Option.isSome_none, Bool.or_false, if_neg Bool.false_ne_true, if_neg Bool.false_ne_true, hid]
  refine ⟨rfl, rfl, rfl, ?_, ?_⟩
  · unfold withScratch
    cases s.answeredAt <;> rfl
  · unfold withScratch
    cases s.scratch.identityOf leg <;> rfl

/-- **A join is passed over** by another attempt, by one that is answered and by a segment that is closed, and by no other. -/
theorem agentJoins_passed_over_iff (s : Segment) (leg : String) (seq : Option Int) (now : Time.Instant) :
    s.perform (.agentJoins leg seq now) = (s, {}) ↔
      s.scratch.isOther seq = true ∨ s.scratch.answeredLeg.isSome = true ∨ s.isClosed = true := by
  refine ⟨fun heq => Classical.byContradiction fun hno => ?_, agentJoins_passed_over⟩
  simp only [not_or, Bool.not_eq_true, Option.isSome_eq_false_iff, Option.isNone_iff_eq_none] at hno
  have hans := (agentJoins_counts leg now hno.1 hno.2.1 hno.2.2).1
  rw [after, heq, hno.2.1] at hans
  cases hans

/-- **The act that settles an attempt** is none that starts or answers one. -/
theorem answeredLeg_of_settling {s : Segment} {a : Act} (h0 : s.scratch.failureHandled = false)
    (h1 : (s.after a).scratch.failureHandled = true) :
    a.isStart = false ∧ (s.after a).scratch.answeredLeg = s.scratch.answeredLeg := by
  cases a with
  | start => cases h1
  | callerJoins => rw [scratch_after_callerJoins]; exact ⟨rfl, by split <;> rfl⟩
  | register => rw [scratch_after_register]; exact ⟨rfl, by split <;> rfl⟩
  | finish => rw [scratch_after_finish]; exact ⟨rfl, by split <;> simp⟩
  | agentJoins =>
    rw [scratch_after_agentJoins] at h1
    split at h1 <;> rw [h0] at h1 <;> cases h1
  | callerLeaves => rw [scratch_after_callerLeaves]; exact ⟨rfl, by split <;> rfl⟩
  | legEnds => rw [scratch_after_legEnds]; exact ⟨rfl, by split <;> simp⟩
  | dialEnds => rw [scratch_after_dialEnds]; exact ⟨rfl, by split <;> simp⟩

/-! ## Behind the end of the attempt -/

theorem isOther_iff_joined (s : Segment) (leg : String) (seq : Option Int) (now : Time.Instant) :
    s.scratch.isOther seq = true ↔ (Act.agentJoins leg seq now).joined? s.scratch.attemptSeq = none := by
  cases seq with
  | none => simp [Scratch.isOther, Act.joined?]
  | some n => simp [Scratch.isOther, Act.joined?]

/-- **An act on a settled attempt answers it only as a join that counts.** -/
theorem after_answeredLeg_of_settled (s : Segment) (a : Act) (ha : a.isStart = false) :
    (s.after a).scratch.answeredLeg = s.scratch.answeredLeg.or
      (if s.isClosed then none else a.joined? s.scratch.attemptSeq) := by
  cases hs : s.scratch.answeredLeg with
  | some leg => rw [after_answeredLeg s a ha hs]; rfl
  | none =>
    rw [Option.none_or]
    cases hafter : (s.after a).scratch.answeredLeg with
    | some leg =>
      obtain ⟨seq, now, rfl, ho, hc⟩ := answeredLeg_of_after ha hs hafter
      cases hj : (Act.agentJoins leg seq now).joined? s.scratch.attemptSeq with
      | none =>
        rw [(isOther_iff_joined s leg seq now).2 hj] at ho
        cases ho
      | some l =>
        have hl : l = leg := by
          simp only [Act.joined?] at hj
          split at hj <;> cases hj
          rfl
        simp [hc, hl]
    | none =>
      by_cases hc : s.isClosed = true
      · rw [if_pos hc]
      · rw [if_neg hc]
        cases hj : a.joined? s.scratch.attemptSeq with
        | none => rfl
        | some leg =>
          cases a with
          | agentJoins l seq now =>
            have ho : s.scratch.isOther seq = false := by
              rw [← Bool.not_eq_true, isOther_iff_joined s l seq now, hj]
              nofun
            have := (agentJoins_counts l now ho hs (by simpa using hc)).1
            rw [hafter] at this
            cases this
          | _ => cases hj

/-- **Which leg has answered behind a run of a settled attempt**: the one that had, else the first that joins while the
segment is open.  The run closes nothing. -/
theorem run_of_settled : ∀ (more : List Act) (s : Segment), (∀ b ∈ more, b.isStart = false) →
    s.scratch.failureHandled = true →
    (s.run more).isClosed = s.isClosed ∧ (s.run more).scratch.attemptSeq = s.scratch.attemptSeq ∧
      (s.run more).scratch.failureHandled = true ∧
      (s.run more).scratch.answeredLeg = s.scratch.answeredLeg.or
        (if s.isClosed then none else more.findSome? (Act.joined? s.scratch.attemptSeq))
  | [], s, _, h => ⟨rfl, rfl, h, by simp⟩
  | a :: more, s, hmore, h => by
    have ha : a.isStart = false := hmore a List.mem_cons_self
    have hclosed : (s.after a).isClosed = s.isClosed := by
      rw [after_isClosed, decision_of_settled s a h, Option.any_none, Bool.or_false]
    have hseq := after_attemptSeq s a ha
    obtain ⟨h1, h2, h3, h4⟩ := run_of_settled more (s.after a) (fun b hb => hmore b (List.mem_cons_of_mem _ hb))
      (after_failureHandled s a ha h)
    rw [run_cons]
    refine ⟨h1.trans hclosed, h2.trans hseq, h3, ?_⟩
    rw [h4, hclosed, hseq, after_answeredLeg_of_settled s a ha, List.findSome?_cons]
    cases s.scratch.answeredLeg with
    | some leg => rfl
    | none =>
      cases s.isClosed with
      | true => rfl
      | false => cases a.joined? s.scratch.attemptSeq <;> simp

/-- The number of the attempt behind a run: one more for each start. -/
theorem run_attemptSeq : ∀ (acts : List Act) (s : Segment),
    (s.run acts).scratch.attemptSeq = s.scratch.attemptSeq + (acts.countP Act.isStart : Nat)
  | [], s => (Int.add_zero _).symm
  | a :: acts, s => by
    rw [run_cons, run_attemptSeq acts (s.after a), after_attemptSeq_eq, List.countP_cons]
    cases a.isStart <;> simp <;> omega

/-- **When a late join is passed over.**  Behind the act that settles an attempt, at every later point of every run, the
join of an agent that carries the attempt's number changes nothing exactly if the segment was closed or answered when the
attempt was settled, or the decision ended the call, or a new attempt was started since, or an earlier late join was taken
for the answer.  Otherwise the join answers the settled attempt. -/
theorem late_join_passed_over_iff (s : Segment) (a : Act) (more : List Act) (leg : String) (now : Time.Instant)
    (h0 : s.scratch.failureHandled = false) (h1 : (s.after a).scratch.failureHandled = true) :
    let t := (s.after a).run more
    let join := Act.agentJoins leg (some s.scratch.attemptSeq) now
    (t.perform join = (t, {}) ↔
      s.isClosed = true ∨ s.scratch.answeredLeg.isSome = true ∨
        (s.effect a).decision.any Decision.isTerminate = true ∨ (∃ b ∈ more, b.isStart = true) ∨
        ∃ b ∈ more, (b.joined? s.scratch.attemptSeq).isSome = true) ∧
    (t.perform join ≠ (t, {}) →
      (t.after join).scratch.answeredLeg = some leg ∧ (t.after join).scratch.failureHandled = true ∧
        (t.after join).status = .inProgress ∧ (t.after join).answeredAt = some (t.answeredAt.getD (.utc now)) ∧
        (t.after join).answeredBy = ((t.scratch.identityOf leg).map Identity.tenantUserId).or t.answeredBy) := by
  intro t join
  obtain ⟨hstart, hleg⟩ := answeredLeg_of_settling h0 h1
  have hseq : (s.after a).scratch.attemptSeq = s.scratch.attemptSeq := after_attemptSeq s a hstart
  have hiff := agentJoins_passed_over_iff t leg (some s.scratch.attemptSeq) now
  by_cases hnew : ∃ b ∈ more, b.isStart = true
  · -- a later attempt: the join carries an old number
    have hcount : 0 < more.countP Act.isStart := List.countP_pos_iff.2 hnew
    have ht : t.scratch.attemptSeq = s.scratch.attemptSeq + (more.countP Act.isStart : Nat) := by
      rw [← hseq]
      exact run_attemptSeq more (s.after a)
    have ho : t.scratch.isOther (some s.scratch.attemptSeq) = true := by
      simp only [Scratch.isOther, Option.any_some, bne_iff_ne, ne_eq]
      omega
    have hpass : t.perform join = (t, {}) := hiff.2 (.inl ho)
    exact ⟨⟨fun _ => .inr (.inr (.inr (.inl hnew))), fun _ => hpass⟩, fun hne => absurd hpass hne⟩
  · have hmore : ∀ b ∈ more, b.isStart = false := fun b hb => by
      rw [← Bool.not_eq_true]
      exact fun hb' => hnew ⟨b, hb, hb'⟩
    obtain ⟨hclosed, hnumber, hsettled, hanswered⟩ := run_of_settled more (s.after a) hmore h1
    rw [after_isClosed] at hclosed hanswered
    rw [hleg, hseq] at hanswered
    have ho : t.scratch.isOther (some s.scratch.attemptSeq) = false := by
      have ht : t.scratch.attemptSeq = s.scratch.attemptSeq := hnumber.trans hseq
      simp [Scratch.isOther, ht]
    constructor
    · rw [hiff, ho, show t.scratch.answeredLeg = _ from hanswered, show t.isClosed = _ from hclosed]
      cases s.isClosed <;> cases s.scratch.answeredLeg <;> cases (s.effect a).decision.any Decision.isTerminate <;>
        simp [hnew]
    · intro hne
      have hno := mt hiff.2 hne
      simp only [not_or, Bool.not_eq_true, Option.isSome_eq_false_iff, Option.isNone_iff_eq_none] at hno
      obtain ⟨hans, hkept, hstatus, hat, hby⟩ := agentJoins_counts leg now ho hno.2.1 hno.2.2
      exact ⟨hans, hkept.trans hsettled, hstatus, hat, hby⟩

theorem late_join_answers_a_settled_attempt :
    let s₀ := Segment.opened "T" "CA1" "CA1" 0 "inbound" .ringing
    let target : DialTarget := ⟨.phone, "+15550100", "+15550100", none⟩
    let s := s₀.run [.start ⟨none, some "line", some 1, none, 0, some "dial", 1⟩ [target] none 30 false,
      .callerJoins (some 1) none, .register 1 "leg" target, .finish 1 0]
    s.scratch.failureHandled = false ∧ (s.after (.legEnds "leg" (some 1) 5)).scratch.failureHandled = true ∧
      ((s.after (.legEnds "leg" (some 1) 5)).after (.agentJoins "leg" (some s.scratch.attemptSeq) 6)).scratch.answeredLeg
        = some "leg" ∧
      ((s.after (.legEnds "leg" (some 1) 5)).after (.agentJoins "leg" (some s.scratch.attemptSeq) 6)).status
        = .inProgress := by
  intro s₀ target s
  have h0 : s.scratch.failureHandled = false := by decide
  have h1 : (s.after (.legEnds "leg" (some 1) 5)).scratch.failureHandled = true := by decide
  have hlate := (late_join_passed_over_iff s (.legEnds "leg" (some 1) 5) [] "leg" 6 h0 h1).2
  rw [run_nil] at hlate
  obtain ⟨h2, -, h3, -⟩ := hlate (by decide)
  exact ⟨h0, h1, h2, h3⟩

end Switchboard.Segment
