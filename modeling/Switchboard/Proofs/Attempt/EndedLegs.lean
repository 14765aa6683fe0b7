import Switchboard.Proofs.Attempt.Failure
import Switchboard.Proofs.Attempt.Ringing
/-!
# Legs that answer behind their end

The end of a leg and its join are reported apart, and either report may come first.  The end of a leg is recorded in the
legs that have ended; a join looks at whether the attempt is answered and whether the segment is closed, and at no leg that
has ended.  `ended_leg_answers_iff` says of every run of an attempt where a leg answers whose end is recorded, and what it
costs the legs that still ring.
-/
namespace Switchboard.Segment

variable {s : Segment} {a : Act} {leg : String}

/-- The leg whose end an act reports, as a report that the attempt takes for its own. -/
def Act.ended? (attempt : Int) : Act → Option String
  | legEnds leg seq _ => if seq.all (· = attempt) then some leg else none
  | _ => none

/-! ## What a run has recorded -/

theorem isOther_iff_ended (s : Segment) (leg : String) (seq : Option Int) (now : Time.Instant) :
    s.scratch.isOther seq = true ↔ (Act.legEnds leg seq now).ended? s.scratch.attemptSeq = none := by
  cases seq with
  | none => simp [Scratch.isOther, Act.ended?]
  | some n => simp [Scratch.isOther, Act.ended?]

/-- **The end of a leg is recorded where it is reported** to its attempt, and stays so. -/
theorem after_endedLegs_iff (ha : a.isStart = false) :
    leg ∈ (s.after a).scratch.endedLegs ↔
      leg ∈ s.scratch.endedLegs ∨ a.ended? s.scratch.attemptSeq = some leg := by
  cases a with
  | start => cases ha
  | callerJoins => rw [scratch_after_callerJoins]; split <;> simp [Act.ended?]
  | register => rw [scratch_after_register]; split <;> simp [Act.ended?]
  | finish => rw [scratch_after_finish]; split <;> simp [Act.ended?]
  | agentJoins => rw [scratch_after_agentJoins]; split <;> simp [Act.ended?]
  | callerLeaves => rw [scratch_after_callerLeaves]; split <;> simp [Act.ended?]
  | dialEnds => rw [scratch_after_dialEnds]; split <;> simp [Act.ended?]
  | legEnds l seq now =>
    rw [scratch_after_legEnds]
    by_cases ho : s.scratch.isOther seq = true
    · rw [ho, Bool.true_or, if_pos rfl, (isOther_iff_ended s l seq now).1 ho]
      simp
    · have hown : (Act.legEnds l seq now).ended? s.scratch.attemptSeq = some l := by
        rw [isOther_iff_ended s l seq now] at ho
        simp only [Act.ended?] at ho ⊢
        split at ho
        · rw [if_pos ‹_›]
        · exact absurd rfl ho
      rw [hown, Bool.eq_false_iff.2 ho, Bool.false_or, Option.some.injEq]
      by_cases he : s.scratch.endedLegs.contains l = true
      · rw [if_pos he]
        exact ⟨.inl, fun h => h.elim (fun h => h) fun hl => hl ▸ List.contains_iff_mem.1 he⟩
      · rw [if_neg he, claimed_endedLegs, List.mem_append, List.mem_singleton]
        exact or_congr_right eq_comm

theorem run_endedLegs_iff : ∀ (acts : List Act) (s : Segment), (∀ b ∈ acts, b.isStart = false) →
    (leg ∈ (s.run acts).scratch.endedLegs ↔
      leg ∈ s.scratch.endedLegs ∨ ∃ b ∈ acts, b.ended? s.scratch.attemptSeq = some leg)
  | [], _, _ => by simp
  | a :: acts, s, hacts => by
    obtain ⟨ha, hrest⟩ := List.forall_mem_cons.1 hacts
    rw [run_cons, run_endedLegs_iff acts (s.after a) hrest, after_endedLegs_iff ha, after_attemptSeq s a ha, or_assoc]
    simp only [List.mem_cons, exists_eq_or_imp]

/-- **A run closes the segment** exactly where a decision of it ends the call. -/
theorem run_isClosed : ∀ (acts : List Act) (s : Segment),
    (s.run acts).isClosed = (s.isClosed || (s.decisions acts).any Decision.isTerminate)
  | [], s => (Bool.or_false _).symm
  | a :: acts, s => by
    rw [run_cons, run_isClosed acts (s.after a), after_isClosed, decisions_cons, List.any_append, Bool.or_assoc]
    cases (s.effect a).decision <;> simp

/-- **Which leg has answered behind a run that left the segment open**: the one that had, else the first that joined. -/
theorem run_answeredLeg_of_open : ∀ (acts : List Act) (s : Segment), (∀ b ∈ acts, b.isStart = false) →
    (s.run acts).isClosed = false →
      (s.run acts).scratch.answeredLeg =
        s.scratch.answeredLeg.or (acts.findSome? (Act.joined? s.scratch.attemptSeq))
  | [], _, _, _ => by simp
  | a :: acts, s, hacts, hopen => by
    obtain ⟨ha, hrest⟩ := List.forall_mem_cons.1 hacts
    have hs : s.isClosed = false := by
      rw [run_isClosed, Bool.or_eq_false_iff] at hopen
      exact hopen.1
    rw [run_cons] at hopen ⊢
    rw [run_answeredLeg_of_open acts (s.after a) hrest hopen, after_attemptSeq s a ha,
      after_answeredLeg_of_settled s a ha, hs, List.findSome?_cons]
    cases s.scratch.answeredLeg with
    | some leg => rfl
    | none => cases a.joined? s.scratch.attemptSeq <;> simp

/-! ## The answer -/

/-- **An act answers an open attempt** exactly if it is the join of a leg that the attempt takes for its own. -/
theorem answers_iff (ha : a.isStart = false) (hs : s.scratch.answeredLeg = none) :
    (s.after a).scratch.answeredLeg = some leg ↔
      s.isClosed = false ∧ a.joined? s.scratch.attemptSeq = some leg := by
  rw [after_answeredLeg_of_settled s a ha, hs, Option.none_or]
  cases s.isClosed <;> simp

/-- **When a leg answers that has ended.**  At every point of every run of an attempt: an act answers the attempt with a leg
whose end is recorded exactly if it is the join of that leg, its end was reported before, no leg had joined before, and the
segment was open and no decision has closed it.  The answer then hangs up every leg that rings, though none of them has
ended if no leg is registered twice; from there on nothing rings, the leg stays the one that answered, and no decision ever
follows from the attempt. -/
theorem ended_leg_answers_iff (s : Segment) (hs : s.Begins) (pre : List Act) (a : Act) (leg : String)
    (hpre : ∀ b ∈ pre, b.isStart = false) (ha : a.isStart = false) :
    let t := s.run pre
    let answers := t.scratch.answeredLeg = none ∧ (t.after a).scratch.answeredLeg = some leg
    (answers ∧ leg ∈ t.scratch.endedLegs ↔
      a.joined? s.scratch.attemptSeq = some leg ∧ (∃ b ∈ pre, b.ended? s.scratch.attemptSeq = some leg) ∧
        (∀ b ∈ pre, b.joined? s.scratch.attemptSeq = none) ∧ s.isClosed = false ∧
        ∀ d ∈ s.decisions pre, d.isTerminate = false) ∧
    (answers ∧ leg ∈ t.scratch.endedLegs →
      ((registrations pre).Nodup →
          (t.effect a).hangUps = t.scratch.pendingLegs ∧ ∀ l ∈ t.scratch.pendingLegs, l ∉ t.scratch.endedLegs) ∧
        ∀ post, (∀ b ∈ post, b.isStart = false) →
          ((t.after a).run post).scratch.answeredLeg = some leg ∧ ((t.after a).run post).scratch.pendingLegs = [] ∧
            (t.after a).decisions post = []) := by
  intro t answers
  have hseq : t.scratch.attemptSeq = s.scratch.attemptSeq := run_attemptSeq_of_no_start s pre hpre
  have hended : leg ∈ t.scratch.endedLegs ↔ ∃ b ∈ pre, b.ended? s.scratch.attemptSeq = some leg := by
    rw [run_endedLegs_iff pre s hpre, hs.ended]
    exact or_iff_right List.not_mem_nil
  have hopen : t.isClosed = false ↔ s.isClosed = false ∧ ∀ d ∈ s.decisions pre, d.isTerminate = false := by
    rw [run_isClosed, Bool.or_eq_false_iff, List.any_eq_false]
    simp only [Bool.not_eq_true]
  constructor
  · constructor
    · rintro ⟨⟨hnone, hleg⟩, hmem⟩
      obtain ⟨hclosed, hjoin⟩ := (answers_iff ha hnone).1 hleg
      have hwinner := run_answeredLeg_of_open pre s hpre hclosed
      rw [hnone, hs.unanswered, Option.none_or] at hwinner
      exact ⟨hseq ▸ hjoin, hended.1 hmem, List.findSome?_eq_none_iff.1 hwinner.symm, hopen.1 hclosed⟩
    · rintro ⟨hjoin, hmem, hfirst, hclosed⟩
      have hclosed := hopen.2 hclosed
      have hnone : t.scratch.answeredLeg = none := by
        rw [run_answeredLeg_of_open pre s hpre hclosed, hs.unanswered, List.findSome?_eq_none_iff.2 hfirst]
        rfl
      exact ⟨⟨hnone, (answers_iff ha hnone).2 ⟨hclosed, hseq ▸ hjoin⟩⟩, hended.2 hmem⟩
  · rintro ⟨⟨hnone, hleg⟩, hmem⟩
    obtain ⟨hhang, hquiet⟩ := hangUps_of_answer ha hnone hleg
    refine ⟨fun hn => ?_, fun post hpost => ?_⟩
    · have hcovered : s.Covered [] [] := fun l => by rw [hs.pending]; exact Nat.le_refl 0
      have hlive : ∀ l ∈ t.scratch.pendingLegs, l ∉ t.scratch.endedLegs :=
        run_pending_live pre s [] [] hcovered hn fun l hl => by rw [hs.pending] at hl; cases hl
      refine ⟨?_, hlive⟩
      rw [hhang, List.filter_eq_self]
      exact fun l hl => decide_eq_true fun heq => hlive l hl (heq ▸ hmem)
    · obtain ⟨hkept, hsilent⟩ := run_silent _ post hpost hleg hquiet
      exact ⟨hkept, hsilent, decisions_of_answered post _ hpost (by rw [hleg]; rfl)⟩

/-- Of two legs that ring the first is reported as ended, and its join comes late: it answers, and the other is hung up. -/
theorem ended_leg_answers_before_the_other :
    let target : DialTarget := ⟨.phone, "+15550100", "+15550100", none⟩
    let s := (Segment.opened "T" "CA1" "CA1" 0 "inbound" .ringing).after
      (.start ⟨none, some "line", some 1, none, 0, some "simulcall", 1⟩ [target, target] none 30 false)
    let pre : List Act := [.callerJoins (some 1) none, .register 1 "ended" target, .register 1 "ringing" target,
      .finish 1 0, .legEnds "ended" (some 1) 5]
    let join : Act := .agentJoins "ended" (some 1) 6
    s.Begins ∧ (registrations pre).Nodup ∧ "ended" ∈ (s.run pre).scratch.endedLegs ∧
      ((s.run pre).after join).scratch.answeredLeg = some "ended" ∧ ((s.run pre).effect join).hangUps = ["ringing"] ∧
      "ringing" ∉ (s.run pre).scratch.endedLegs := by
  intro target s pre join
  have hs : s.Begins := begins_of_start _ rfl
  have hpre : ∀ b ∈ pre, b.isStart = false := by decide
  have hn : (registrations pre).Nodup := by decide
  obtain ⟨hiff, hcost⟩ := ended_leg_answers_iff s hs pre join "ended" hpre rfl
  have hringing : (s.run pre).scratch.pendingLegs = ["ringing"] := by decide
  have hanswers := hiff.2 ⟨by decide, by decide, by decide, by decide, by decide⟩
  obtain ⟨hhang, hlive⟩ := (hcost hanswers).1 hn
  exact ⟨hs, hn, hanswers.2, hanswers.1.2, hhang.trans hringing, hlive "ringing" (by decide)⟩

end Switchboard.Segment
