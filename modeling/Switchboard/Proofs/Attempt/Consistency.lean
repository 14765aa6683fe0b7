import Switchboard.Proofs.Attempt.Ringing
import Switchboard.Service.Transfer
/-!
# The scratch record stays consistent

Eight acts append to the lists of the scratch record, take from them and empty them.  A leg that stood in a list twice, or
in two lists, would be waited for behind its end.  `Scratch.Consistent` is what the lists and the flags of a record have to
do with one another.  Its clauses on what rings need that no leg rings twice, which the ledger of registrations tells
(`Covered`), so a run carries both.
-/
namespace Switchboard

/-- How the parts of a scratch record stand to one another. -/
structure Scratch.Consistent (sc : Scratch) : Prop where
  pending_nodup : sc.pendingLegs.Nodup
  pending_known : ∀ leg ∈ sc.pendingLegs, sc.knowsLeg leg = true
  pending_live : ∀ leg ∈ sc.pendingLegs, leg ∉ sc.endedLegs
  answered_quiet : ∀ leg, sc.answeredLeg = some leg → leg ∉ sc.pendingLegs
  ended_nodup : sc.endedLegs.Nodup
  failed_handled : sc.attemptFailed = true → sc.failureHandled = true
  failed_complete : sc.attemptFailed = true → sc.dialComplete = true

namespace Segment

variable {s : Segment} {a : Act}

/-! ## One clause after another -/

theorem Covered.nodup {asked registered : List String} (h : s.Covered asked registered) (hn : registered.Nodup) :
    s.scratch.pendingLegs.Nodup :=
  List.nodup_iff_count.2 fun leg => by
    have hone := List.nodup_iff_count.1 hn leg
    have hrings := h leg
    omega

/-- **What rings is known**: a leg comes to ring by its registration. -/
theorem after_pending_known (a : Act) (h : ∀ leg ∈ s.scratch.pendingLegs, s.scratch.knowsLeg leg = true) :
    ∀ leg ∈ (s.after a).scratch.pendingLegs, (s.after a).scratch.knowsLeg leg = true := by
  intro leg hleg
  cases ha : a.isStart with
  | true =>
    rw [(begins_of_start s ha).pending] at hleg
    cases hleg
  | false =>
    rw [after_knowsLeg s a ha leg]
    by_cases hbefore : leg ∈ s.scratch.pendingLegs
    · exact .inl (h leg hbefore)
    · exact .inr (register_of_pending hbefore hleg).2

theorem AnswerQuiet.not_pending {leg : String} (h : s.AnswerQuiet) (hleg : s.scratch.answeredLeg = some leg) :
    leg ∉ s.scratch.pendingLegs := by
  rw [h (by rw [hleg]; nofun)]
  exact List.not_mem_nil

/-- **The end of a leg is recorded once.** -/
theorem after_ended_nodup (a : Act) (h : s.scratch.endedLegs.Nodup) :
    (s.after a).scratch.endedLegs.Nodup := by
  cases a with
  | start => exact List.nodup_nil
  | callerJoins => rw [scratch_after_callerJoins]; split <;> exact h
  | register => rw [scratch_after_register]; split <;> exact h
  | finish => rw [scratch_after_finish]; split <;> simpa using h
  | agentJoins => rw [scratch_after_agentJoins]; split <;> exact h
  | callerLeaves => rw [scratch_after_callerLeaves]; split <;> exact h
  | dialEnds => rw [scratch_after_dialEnds]; split <;> simpa using h
  | legEnds leg seq now =>
    rw [scratch_after_legEnds]
    split
    · exact h
    · rename_i hcounts
      simp only [Bool.or_eq_true, not_or, List.contains_iff_mem] at hcounts
      rw [claimed_endedLegs]
      exact List.nodup_append.2 ⟨h, List.nodup_cons.2 ⟨List.not_mem_nil, List.nodup_nil⟩, fun l hl _ hend heq =>
        hcounts.2 (List.mem_singleton.1 hend ▸ heq ▸ hl)⟩

/-- An attempt that has failed is settled, and every leg of it was placed. -/
def FailedSettled (sc : Scratch) : Prop :=
  sc.attemptFailed = true → sc.failureHandled = true ∧ sc.dialComplete = true

/-- The decision is claimed of an attempt whose every leg was placed, and settles it. -/
theorem claimed_failedSettled {sc : Scratch} (h : FailedSettled sc) : FailedSettled (claimed sc) := by
  unfold claimed
  split
  · exact h
  · rename_i hclaims
    simp only [Bool.or_eq_true, Bool.not_eq_true', not_or, Bool.not_eq_false] at hclaims
    exact fun _ => ⟨rfl, ((isExhausted_iff sc).1 hclaims.2).1⟩

theorem after_failedSettled (a : Act) (h : FailedSettled s.scratch) :
    FailedSettled (s.after a).scratch := by
  cases a with
  | start => exact nofun
  | callerJoins => rw [scratch_after_callerJoins]; split <;> exact h
  | register => rw [scratch_after_register]; split <;> exact h
  | agentJoins => rw [scratch_after_agentJoins]; split <;> exact h
  | finish =>
    rw [scratch_after_finish]
    split
    · exact h
    · exact claimed_failedSettled fun hf => ⟨(h hf).1, rfl⟩
  | callerLeaves =>
    rw [scratch_after_callerLeaves]
    split
    · exact h
    · exact fun hf => ⟨rfl, (h hf).2⟩
  | legEnds =>
    rw [scratch_after_legEnds]
    split
    · exact h
    · exact claimed_failedSettled h
  | dialEnds =>
    rw [scratch_after_dialEnds]
    split
    · exact h
    · exact claimed_failedSettled fun hf => ⟨(h hf).1, rfl⟩

/-! ## All clauses together -/

theorem Begins.consistent (h : s.Begins) (hf : s.scratch.attemptFailed = false) : s.scratch.Consistent where
  pending_nodup := by simp [h.pending]
  pending_known := by simp [h.pending]
  pending_live := by simp [h.pending]
  answered_quiet := by simp [h.pending]
  ended_nodup := by simp [h.ended]
  failed_handled := by simp [hf]
  failed_complete := by simp [hf]

/-- **Each act keeps the record consistent**, unless it registers a leg again. -/
theorem after_consistent {asked registered : List String} (a : Act) (hcovered : s.Covered asked registered)
    (hquiet : s.AnswerQuiet) (hn : (registered ++ a.registers).Nodup) (h : s.scratch.Consistent) :
    (s.after a).scratch.Consistent :=
  have hfailed := after_failedSettled a fun hf => ⟨h.failed_handled hf, h.failed_complete hf⟩
  { pending_nodup := (after_covered a hcovered).nodup hn
    pending_known := after_pending_known a h.pending_known
    pending_live := after_pending_live hcovered (List.nodup_append.1 hn).1 h.pending_live
    answered_quiet := fun _ => (after_answerQuiet s a hquiet).not_pending
    ended_nodup := after_ended_nodup a h.ended_nodup
    failed_handled := fun hf => (hfailed hf).1
    failed_complete := fun hf => (hfailed hf).2 }

theorem run_consistent : ∀ (acts : List Act) (s : Segment) (asked registered : List String),
    s.Covered asked registered → s.AnswerQuiet → (registered ++ registrations acts).Nodup →
      s.scratch.Consistent → (s.run acts).scratch.Consistent
  | [], _, _, _, _, _, _, h => h
  | a :: acts, s, asked, registered, hcovered, hquiet, hn, h => by
    rw [registrations, List.flatMap_cons, ← List.append_assoc] at hn
    exact run_consistent acts (s.after a) _ _ (after_covered a hcovered) (after_answerQuiet s a hquiet) hn
      (after_consistent a hcovered hquiet (List.nodup_append.1 hn).1 h)

theorem begins_of_made (hs : s.scratch = .fresh ∨ ∃ active m, s.scratch = Work.transferScratch active m) :
    s.Begins ∧ s.scratch.attemptFailed = false := by
  rcases hs with hs | ⟨active, m, hs⟩
  · exact ⟨⟨by rw [hs]; rfl, by rw [hs]; rfl, by rw [hs]; rfl, by rw [hs]; rfl⟩, by rw [hs]; rfl⟩
  · exact ⟨⟨by rw [hs]; rfl, by rw [hs]; rfl, by rw [hs]; rfl, by rw [hs]; rfl⟩, by rw [hs]; rfl⟩

/-- **The scratch record is consistent behind every run** of a segment whose record is fresh or was made by a transfer, if
every leg that is placed is registered once.  At every point of the run the next act leaves the number of the attempt as it
is, or is the start of an attempt and adds one, so the number counts the attempts that the run has started. -/
theorem scratch_stays_consistent (s : Segment) (acts : List Act)
    (hs : s.scratch = .fresh ∨ ∃ active m, s.scratch = Work.transferScratch active m)
    (hn : (registrations acts).Nodup) :
    (s.run acts).scratch.Consistent ∧
      (∀ a, ((s.run acts).after a).scratch.attemptSeq =
        (s.run acts).scratch.attemptSeq + if a.isStart then 1 else 0) ∧
      (s.run acts).scratch.attemptSeq = s.scratch.attemptSeq + acts.countP Act.isStart := by
  obtain ⟨hbegins, hf⟩ := begins_of_made hs
  have hcovered : s.Covered [] [] := fun leg => by rw [hbegins.pending]; exact Nat.le_refl 0
  exact ⟨run_consistent acts s [] [] hcovered (fun _ => hbegins.pending) hn (hbegins.consistent hf),
    after_attemptSeq_eq _, run_attemptSeq acts s⟩

theorem consistent_over_two_attempts :
    let target : DialTarget := ⟨.phone, "+15550100", "+15550100", none⟩
    let resume : Resume := ⟨none, some "line", some 1, none, 0, some "round_robin", 2⟩
    let s := Segment.opened "T" "CA1" "CA1" 0 "inbound" .ringing
    let acts : List Act := [.start resume [target] none 30 false, .callerJoins (some 1) none, .legEnds "ended" (some 1) 3,
      .register 1 "ended" target, .register 1 "leg" target, .finish 1 4, .legEnds "leg" (some 1) 5,
      .legEnds "leg" (some 1) 6, .start { resume with attemptIndex := 1 } [target] none 30 false, .register 1 "late" target,
      .register 2 "ringing" target]
    s.scratch = .fresh ∧ (registrations acts).Nodup ∧ (s.run acts).scratch.Consistent ∧
      (s.run acts).scratch.pendingLegs = ["ringing"] ∧ (s.run acts).scratch.attemptSeq = 2 ∧
      (s.run (acts.take 8)).scratch.attemptFailed = true ∧ (s.run (acts.take 8)).scratch.endedLegs = ["ended", "leg"] := by
  intro target resume s acts
  have hs : s.scratch = .fresh := rfl
  have hn : (registrations acts).Nodup := by decide
  obtain ⟨hconsistent, -, hseq⟩ := scratch_stays_consistent s acts (.inl hs) hn
  exact ⟨hs, hn, hconsistent, by decide, hseq, by decide, by decide⟩

end Segment

end Switchboard
