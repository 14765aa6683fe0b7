import Switchboard.Proofs.Attempt.Listing
/-!
# The order of registration

A leg is known to its attempt once it is registered, and the reports of its join and of its end may come before.  The
registration makes up for what the leg has missed: moved over a report it leaves the same segment behind
(`run_register_comm`).  So while the legs of an attempt are placed every order of registrations and reports comes to the
reports first and the registrations behind them, and registrations among themselves change no more than the order in which
legs are listed (`Alike`).

What is asked of the provider meanwhile does hang on the order: a leg that lost is hung up where it loses, unless its end
is recorded by then.
-/
namespace Switchboard.Segment

open Time (Instant)

variable {s t : Segment} {a : Act} {leg : String} {target : DialTarget}

/-! ## The acts of the phase in which legs are placed -/

/-- Whether an act reports what has become of a leg. -/
def Act.reports : Act → Bool
  | agentJoins .. | legEnds .. => true
  | _ => false

/-- Whether an act is the report of a leg, or registers one with the attempt that the segment is at, for one of the
attempt's targets. -/
def Act.Places (s : Segment) (a : Act) : Prop :=
  a.reports = true ∨ ∃ leg target, a = .register s.scratch.attemptSeq leg target ∧ target ∈ s.scratch.targets

/-- The legs of an attempt are being placed: dialing goes on, every leg that rings is known, nothing is settled, and while
nobody has answered nobody is who did. -/
structure Placing (s : Segment) : Prop where
  incomplete : s.scratch.dialComplete = false
  known : ∀ leg ∈ s.scratch.pendingLegs, s.scratch.knowsLeg leg = true
  unsettled : s.scratch.failureHandled = false
  unattributed : s.scratch.answeredLeg = none → s.answeredBy = none

theorem Begins.knowsLeg (h : s.Begins) (leg : String) : s.scratch.knowsLeg leg = false := by
  rw [Scratch.knowsLeg, h.placed]
  rfl

theorem Begins.ledger (h : s.Begins) : s.Ledger [] [] := by
  refine ⟨fun leg => ?_, fun leg hk => ?_, fun _ _ _ leg hk => ?_⟩
  · rw [h.pending]
    exact Nat.le_refl 0
  · rw [h.knowsLeg] at hk
    cases hk
  · rw [h.knowsLeg] at hk
    cases hk

theorem Act.Places.isStart (h : a.Places s) : a.isStart = false := by
  rcases h with h | ⟨leg, target, rfl, -⟩
  · cases a <;> first | rfl | cases h
  · rfl

theorem Act.Places.ne_callerLeaves (h : a.Places s) (seq : Option Int) : a ≠ .callerLeaves seq := by
  rintro rfl
  rcases h with h | ⟨leg, target, heq, -⟩
  · cases h
  · cases heq

theorem Act.Places.after {b : Act} (hb : b.Places s) (ha : a.isStart = false) : b.Places (s.after a) := by
  rcases hb with hb | ⟨leg, target, rfl, htarget⟩
  · exact .inl hb
  · exact .inr ⟨leg, target, by rw [after_attemptSeq s a ha], by rwa [after_targets ha]⟩

theorem Act.Places.run : ∀ (acts : List Act) {s : Segment} {b : Act}, b.Places s → (∀ a ∈ acts, a.isStart = false) →
    b.Places (s.run acts)
  | [], _, _, hb, _ => hb
  | a :: acts, _, _, hb, hacts =>
    Act.Places.run acts (hb.after (hacts a List.mem_cons_self)) fun c hc => hacts c (List.mem_cons_of_mem _ hc)

theorem placing_of_start (h : s.answeredBy = none) (resume : Resume) (targets : List DialTarget)
    (callerId : Option String) (timeout : Int) (record : Bool) :
    (s.after (.start resume targets callerId timeout record)).Placing :=
  ⟨rfl, nofun, rfl, fun _ => h⟩

theorem Placing.after (h : s.Placing) (ha : a.Places s) : (s.after a).Placing := by
  have hstart := ha.isStart
  refine ⟨?_, fun leg hleg => ?_, ?_, fun hnone => ?_⟩
  · rcases ha with ha | ⟨leg, target, rfl, -⟩
    · cases a with
      | agentJoins => rw [scratch_after_agentJoins]; split <;> exact h.incomplete
      | legEnds => rw [scratch_after_legEnds]; split <;> simp [h.incomplete]
      | _ => cases ha
    · rw [scratch_after_register]; split <;> exact h.incomplete
  · by_cases hbefore : leg ∈ s.scratch.pendingLegs
    · exact (after_knowsLeg s a hstart leg).2 (.inl (h.known leg hbefore))
    · exact (after_knowsLeg s a hstart leg).2 (.inr (register_of_pending hbefore hleg).2)
  · rcases ha with ha | ⟨leg, target, rfl, -⟩
    · cases a with
      | agentJoins => rw [scratch_after_agentJoins]; split <;> exact h.unsettled
      | legEnds =>
        rw [scratch_after_legEnds]
        split
        · exact h.unsettled
        · rw [claimed_failureHandled]
          simp [h.unsettled, Scratch.isExhausted, h.incomplete]
      | _ => cases ha
    · rw [scratch_after_register]; split <;> exact h.unsettled
  · cases hs : s.scratch.answeredLeg with
    | some winner =>
      rw [after_answeredLeg s a hstart hs] at hnone
      cases hnone
    | none => rw [after_answeredBy_of_unanswered hs hnone, h.unattributed hs]

theorem Placing.run (acts : List Act) (h : s.Placing) (hacts : ∀ a ∈ acts, a.Places s) : (s.run acts).Placing := by
  induction acts generalizing s with
  | nil => exact h
  | cons a acts ih =>
    obtain ⟨ha, hrest⟩ := List.forall_mem_cons.1 hacts
    exact ih (h.after ha) fun b hb => (hrest b hb).after ha.isStart

/-! ## Registrations and reports, one before the other -/

theorem knownFor_of_unknown (target : DialTarget) (h : s.scratch.knowsLeg leg = false) : s.KnownFor leg target False := by
  refine ⟨by rw [h]; exact ⟨nofun, False.elim⟩, False.elim, fun _ => ?_⟩
  unfold Scratch.knowsLeg at h
  have hnone : s.scratch.legTargets.find? (fun e => e.1 = leg) = none :=
    List.find?_eq_none.2 fun e he heq => Bool.false_ne_true (h.symm.trans (List.any_eq_true.2 ⟨e, he, heq⟩))
  rw [Scratch.targetOf, hnone]
  rfl

/-- **To whom a leg belongs behind a registration**: the one that is registered to its target's member, any other as before. -/
theorem identityOf_registered (l : String) (hnew : s.scratch.knowsLeg leg = false) (htarget : target ∈ s.scratch.targets) :
    (s.registered leg target).scratch.identityOf l = if l = leg then target.identity else s.scratch.identityOf l := by
  rw [← after_register]
  have htargets := after_targets (s := s) (a := .register s.scratch.attemptSeq leg target) rfl
  by_cases hl : l = leg
  · subst hl
    have hafter := (knownFor_of_unknown target hnew).after (a := .register s.scratch.attemptSeq l target) rfl
      fun u hu => by cases hu; rfl
    rw [if_pos rfl, hafter.identityOf (htargets ▸ htarget), if_pos (.inr rfl)]
  · have htargetOf : (s.after (.register s.scratch.attemptSeq leg target)).scratch.targetOf l = _ := after_targetOf rfl
    have hknows : (s.after (.register s.scratch.attemptSeq leg target)).scratch.knowsLeg l = s.scratch.knowsLeg l := by
      refine Bool.eq_iff_iff.2 ((after_knowsLeg s _ rfl l).trans (or_iff_left fun ⟨_, hreg⟩ => ?_))
      cases hreg
      exact hl rfl
    rw [Act.placed?, if_neg fun h => hl h.2.symm, Option.none_or] at htargetOf
    rw [if_neg hl, Scratch.identityOf, Scratch.identityOf, htargetOf, htargets, hknows]

/-- A leg that ends is taken off the list before another one is put on it, or behind that. -/
theorem erase_registered {ringing ended : List String} {l : String} {waits : Prop} [Decidable waits]
    (hnew : leg ∉ ringing) :
    (if waits ∧ leg ∉ ended then ringing ++ [leg] else ringing).erase l =
      if waits ∧ leg ∉ ended ++ [l] then ringing.erase l ++ [leg] else ringing.erase l := by
  have hmem : leg ∈ ended ++ [l] ↔ leg ∈ ended ∨ leg = l := by simp
  by_cases hopen : waits ∧ leg ∉ ended
  · rw [if_pos hopen]
    by_cases hl : leg = l
    · subst hl
      rw [if_neg fun h => h.2 (hmem.2 (.inr rfl)), List.erase_append_right _ hnew, List.erase_of_not_mem hnew]
      simp
    · rw [if_pos ⟨hopen.1, fun h => (hmem.1 h).elim hopen.2 hl⟩, List.erase_append]
      by_cases hm : l ∈ ringing
      · rw [if_pos hm]
      · rw [if_neg hm, List.erase_of_not_mem hm, List.erase_of_not_mem (by simpa using Ne.symm hl)]
  · rw [if_neg hopen, if_neg fun h => hopen ⟨h.1, fun hm => h.2 (hmem.2 (.inl hm))⟩]

/-- **A registration may come before a report or behind it**: either way the segment is the same afterwards. -/
theorem registered_after (h : s.Placing) (hnew : s.scratch.knowsLeg leg = false) (htarget : target ∈ s.scratch.targets)
    (ha : a.reports = true) : (s.registered leg target).after a = (s.after a).registered leg target := by
  cases a with
  | agentJoins l seq now =>
    by_cases hpass : s.scratch.isOther seq = true ∨ s.scratch.answeredLeg.isSome = true ∨ s.isClosed = true
    · have hkept : s.after (.agentJoins l seq now) = s := congrArg Prod.fst (agentJoins_passed_over hpass)
      rw [hkept]
      exact congrArg Prod.fst (agentJoins_passed_over (s := s.registered leg target) hpass)
    · simp only [not_or, Bool.not_eq_true, Option.isSome_eq_false_iff, Option.isNone_iff_eq_none] at hpass
      obtain ⟨ho, hs, hc⟩ := hpass
      have hid := identityOf_registered l hnew htarget
      rw [after_agentJoins (s := s.registered leg target) _ now ho hs hc, after_agentJoins _ now ho hs hc, hid]
      by_cases hl : l = leg
      · -- the leg was nobody's when it joined, and its registration says whose it is
        have hnobody := (knownFor_of_unknown target hnew).identityOf htarget
        rw [if_neg not_false] at hnobody
        simp [registered, hl, hs, hnobody, h.unattributed hs, DialTarget.member?]
      · simp [registered, hl, hs]
  | legEnds l seq now =>
    by_cases hskip : s.scratch.isOther seq = true ∨ l ∈ s.scratch.endedLegs
    · have hkept : s.after (.legEnds l seq now) = s := congrArg Prod.fst (legEnded_of_skipped now hskip)
      rw [hkept]
      exact congrArg Prod.fst (legEnded_of_skipped (s := s.registered leg target) now hskip)
    · simp only [not_or, Bool.not_eq_true] at hskip
      have hrings : leg ∉ s.scratch.pendingLegs := fun hm => by
        rw [h.known leg hm] at hnew
        cases hnew
      rw [after_legEnds now hskip.1 hskip.2 h.incomplete,
        after_legEnds (s := s.registered leg target) now hskip.1 hskip.2 h.incomplete]
      simp only [withScratch, registered, erase_registered hrings]
      rfl
  | _ => cases ha

theorem run_register_comm : ∀ (events : List Act) (s : Segment), s.Placing → s.scratch.knowsLeg leg = false →
    target ∈ s.scratch.targets → (∀ a ∈ events, a.reports = true) →
      (s.after (.register s.scratch.attemptSeq leg target)).run events =
        (s.run events).after (.register s.scratch.attemptSeq leg target)
  | [], _, _, _, _, _ => rfl
  | a :: events, s, h, hnew, htarget, hevents => by
    obtain ⟨ha, hrest⟩ := List.forall_mem_cons.1 hevents
    have hplaces : a.Places s := .inl ha
    have hseq := after_attemptSeq s a hplaces.isStart
    have hnew' : (s.after a).scratch.knowsLeg leg = false := by
      rw [Bool.eq_false_iff, ne_eq, after_knowsLeg s a hplaces.isStart, hnew]
      rintro (hk | ⟨u, rfl⟩)
      · cases hk
      · cases ha
    have ih := run_register_comm events (s.after a) (h.after hplaces) hnew' (by rwa [after_targets hplaces.isStart]) hrest
    rw [run_cons, run_cons, after_register, registered_after h hnew htarget ha, ← after_register, ih, hseq]

/-- **Reports first, registrations behind them**: every order of the acts of the phase comes to this one. -/
theorem run_eq_reports_first : ∀ (acts : List Act) (s : Segment), s.Placing → (∀ a ∈ acts, a.Places s) →
    (registrations acts).Nodup → (∀ leg ∈ registrations acts, s.scratch.knowsLeg leg = false) →
      s.run acts = (s.run (acts.filter Act.reports)).run (acts.filter fun a => !a.reports)
  | [], _, _, _, _, _ => rfl
  | a :: acts, s, h, hacts, hn, hnew => by
    obtain ⟨ha, hrest⟩ := List.forall_mem_cons.1 hacts
    have hrest' : ∀ b ∈ acts, b.Places (s.after a) := fun b hb => (hrest b hb).after ha.isStart
    rw [registrations, List.flatMap_cons, ← registrations] at hn hnew
    obtain ⟨-, hn', hapart⟩ := List.nodup_append.1 hn
    have hnew' : ∀ leg ∈ registrations acts, (s.after a).scratch.knowsLeg leg = false := fun leg hleg => by
      rw [Bool.eq_false_iff, ne_eq, after_knowsLeg s a ha.isStart, hnew leg (List.mem_append_right _ hleg)]
      rintro (hk | ⟨u, rfl⟩)
      · cases hk
      · exact hapart leg List.mem_cons_self leg hleg rfl
    have ih := run_eq_reports_first acts (s.after a) (h.after ha) hrest' hn' hnew'
    rw [run_cons, ih]
    rcases ha with ha | ⟨leg, target, rfl, htarget⟩
    · rw [List.filter_cons_of_pos ha, List.filter_cons_of_neg (by simp [ha]), run_cons]
    · have hreports : ∀ b ∈ acts.filter Act.reports, b.reports = true := fun b hb => (List.mem_filter.1 hb).2
      have hunknown := hnew leg (List.mem_append_left _ List.mem_cons_self)
      rw [run_register_comm _ s h hunknown htarget hreports, List.filter_cons_of_neg (by simp [Act.reports]),
        List.filter_cons_of_pos (by simp [Act.reports]), run_cons]

/-! ## Registrations among themselves -/

/-- **Of two registrations either may come first**, but for the order in which the legs are listed. -/
theorem registered_comm {leg' : String} {target' : DialTarget} (hne : leg ≠ leg')
    (hd : (s.scratch.legTargets.map Prod.fst).Nodup) :
    ((s.registered leg target).registered leg' target').Alike ((s.registered leg' target').registered leg target) := by
  refine ⟨?_, putEntry_comm _ _ hne hd, putEntry_distinct _ _ (putEntry_distinct _ _ hd), ?_⟩
  · cases hs : s.scratch.answeredLeg with
    | some winner => simp [registered, hs]
    | none =>
      by_cases hleg : leg ∈ s.scratch.endedLegs
      · simp [registered, hs, hleg]
      · by_cases hleg' : leg' ∈ s.scratch.endedLegs
        · simp [registered, hs, hleg, hleg']
        · have hswap := (List.Perm.swap leg' leg []).append_left s.scratch.pendingLegs
          simpa [registered, hs, hleg, hleg'] using hswap
  · have hby : ((s.registered leg' target').registered leg target).answeredBy =
        ((s.registered leg target).registered leg' target').answeredBy := by
      cases hs : s.scratch.answeredLeg with
      | none => simp [registered, hs]
      | some winner =>
        by_cases hleg : winner = leg
        · simp [registered, hs, hleg, hne]
        · simp [registered, hs, hleg]
    simp only [registered] at hby
    simp only [relisted, withScratch, registered, hby]

theorem run_registrations_perm {acts acts' : List Act} (h : acts.Perm acts') :
    ∀ s : Segment, (∀ a ∈ acts, ∃ leg target, a = .register s.scratch.attemptSeq leg target) →
      (registrations acts).Nodup → (s.scratch.legTargets.map Prod.fst).Nodup → (s.run acts).Alike (s.run acts') := by
  induction h with
  | nil => exact fun s _ _ hd => .refl hd
  | cons a _ ih =>
    intro s hacts hn hd
    obtain ⟨⟨leg, target, rfl⟩, hrest⟩ := List.forall_mem_cons.1 hacts
    rw [registrations, List.flatMap_cons, ← registrations] at hn
    rw [run_cons, run_cons]
    refine ih _ ?_ (List.nodup_append.1 hn).2.1 ?_
    · rwa [after_attemptSeq s _ rfl]
    · rw [after_register]
      exact putEntry_distinct _ _ hd
  | swap a b rest =>
    intro s hacts hn hd
    obtain ⟨⟨leg, target, rfl⟩, hrest⟩ := List.forall_mem_cons.1 hacts
    obtain ⟨⟨leg', target', rfl⟩, -⟩ := List.forall_mem_cons.1 hrest
    have hne : leg ≠ leg' := fun h => by
      simp [registrations, Act.registers, h] at hn
    have hboth {l l' : String} {u u' : DialTarget} :
        (s.after (.register s.scratch.attemptSeq l u)).after (.register s.scratch.attemptSeq l' u') =
          (s.registered l u).registered l' u' := by
      rw [after_register]
      exact after_register (s.registered l u) l' u'
    rw [run_cons, run_cons, run_cons, run_cons, hboth, hboth]
    exact ((registered_comm hne hd).run rest).1
  | trans h _ ih ih' =>
    intro s hacts hn hd
    refine (ih s hacts hn hd).trans (ih' s (fun a ha => hacts a (h.mem_iff.2 ha)) ?_ hd)
    exact (h.flatMap_right Act.registers).nodup_iff.1 hn

theorem registrations_filter : ∀ acts : List Act, registrations (acts.filter fun a => !a.reports) = registrations acts
  | [] => rfl
  | a :: acts => by
    rw [registrations, registrations, List.flatMap_cons, ← registrations, ← registrations, ← registrations_filter acts]
    cases a with
    | agentJoins | legEnds => rfl
    | _ => rw [List.filter_cons_of_pos rfl]; rfl

/-! ## The phase in any order -/

/-- The same phase in another order: the reports come as they do, each leg is registered at some other time. -/
structure Reorders (acts acts' : List Act) : Prop where
  reports : acts.filter Act.reports = acts'.filter Act.reports
  registrations : (acts.filter fun a => !a.reports).Perm (acts'.filter fun a => !a.reports)

namespace Reorders

variable {acts acts' : List Act} (h : Reorders acts acts')
include h

theorem mem_iff : a ∈ acts ↔ a ∈ acts' := by
  cases ha : a.reports with
  | true =>
    have hmem : a ∈ acts.filter Act.reports ↔ a ∈ acts'.filter Act.reports := by rw [h.reports]
    simpa [ha] using hmem
  | false =>
    have hmem := h.registrations.mem_iff (a := a)
    simpa [ha] using hmem

theorem perm : (Segment.registrations acts).Perm (Segment.registrations acts') := by
  rw [← registrations_filter acts, ← registrations_filter acts']
  exact h.registrations.flatMap_right Act.registers

/-- **The order of registrations does not matter**: the segment behind the phase is the same but for its lists of legs. -/
theorem alike (hs : s.Placing) (hacts : ∀ a ∈ acts, a.Places s) (hn : (Segment.registrations acts).Nodup)
    (hb : s.Begins) : (s.run acts).Alike (s.run acts') := by
  have hacts' : ∀ a ∈ acts', a.Places s := fun a ha => hacts a (h.mem_iff.2 ha)
  rw [run_eq_reports_first acts s hs hacts hn fun leg _ => hb.knowsLeg leg,
    run_eq_reports_first acts' s hs hacts' (h.perm.nodup_iff.1 hn) fun leg _ => hb.knowsLeg leg, ← h.reports]
  have hreports : ∀ a ∈ acts.filter Act.reports, a.isStart = false := fun a ha =>
    (hacts a (List.mem_filter.1 ha).1).isStart
  have hplaced : (s.run (acts.filter Act.reports)).scratch.legTargets = s.scratch.legTargets :=
    run_induction (P := fun t => t.scratch.legTargets = s.scratch.legTargets) (Q := fun a => a.reports = true)
      (fun t a ha ht => by
        cases a with
        | agentJoins => rw [scratch_after_agentJoins]; split <;> exact ht
        | legEnds => rw [scratch_after_legEnds]; split <;> simpa using ht
        | _ => cases ha) _ s (fun a ha => (List.mem_filter.1 ha).2) rfl
  refine run_registrations_perm h.registrations _ (fun a ha => ?_) ?_ (by rw [hplaced, hb.placed]; exact List.nodup_nil)
  · obtain ⟨hmem, hnone⟩ := List.mem_filter.1 ha
    rw [run_attemptSeq_of_no_start s _ hreports]
    rcases hacts a hmem with hreport | ⟨leg, target, rfl, -⟩
    · rw [hreport] at hnone
      cases hnone
    · exact ⟨leg, target, rfl⟩
  · rwa [registrations_filter]

end Reorders

/-! ## What is asked meanwhile -/

theorem run_answeredLeg_of_no_join : ∀ (acts : List Act) (s : Segment), (∀ a ∈ acts, a.isStart = false) →
    (∀ a ∈ acts, a.joined? s.scratch.attemptSeq = none) → (s.run acts).scratch.answeredLeg = s.scratch.answeredLeg
  | [], _, _, _ => rfl
  | a :: acts, s, hacts, hjoins => by
    obtain ⟨ha, hrest⟩ := List.forall_mem_cons.1 hacts
    obtain ⟨hj, hjoins'⟩ := List.forall_mem_cons.1 hjoins
    rw [run_cons, run_answeredLeg_of_no_join acts (s.after a) hrest (by rwa [after_attemptSeq s a ha]),
      after_answeredLeg_of_settled s a ha, hj, ite_self, Option.or_none]

theorem Placing.decisions_eq_nil : ∀ (acts : List Act) {s : Segment}, s.Placing → (∀ a ∈ acts, a.Places s) →
    s.decisions acts = []
  | [], _, _, _ => rfl
  | a :: acts, s, h, hacts => by
    obtain ⟨ha, hrest⟩ := List.forall_mem_cons.1 hacts
    have hnone : (s.effect a).decision = none := by
      cases hd : (s.effect a).decision with
      | none => rfl
      | some d =>
        have hcomplete := (exhausted_of_decision hd).2.2
        rw [(h.after ha).incomplete] at hcomplete
        cases hcomplete
    rw [decisions_cons, hnone, Placing.decisions_eq_nil acts (h.after ha) fun b hb => (hrest b hb).after ha.isStart]
    rfl

theorem winner_not_hungUp {winner : String} : ∀ (acts : List Act) (s : Segment), (∀ a ∈ acts, a.Places s) →
    s.scratch.answeredLeg = some winner → s.scratch.pendingLegs = [] → winner ∉ s.hangUps acts
  | [], _, _, _, _ => List.not_mem_nil
  | a :: acts, s, hacts, hw, hquiet => by
    obtain ⟨ha, hrest⟩ := List.forall_mem_cons.1 hacts
    have hstart := ha.isStart
    rw [← List.singleton_append, hangUps_append, hangUps_singleton, List.mem_append, not_or]
    refine ⟨fun hm => ?_, winner_not_hungUp acts (s.after a) (fun b hb => (hrest b hb).after hstart)
      (after_answeredLeg s a hstart hw) (after_silent a hstart hw hquiet).1⟩
    have hregisters := (after_silent a hstart hw hquiet).2 winner hm
    rcases ha with hreport | ⟨leg, target, rfl, -⟩
    · cases a with
      | register => cases hreport
      | _ => cases hregisters
    · obtain rfl := List.mem_singleton.1 hregisters
      rw [hangUps_of_register_answered hw, if_pos (.inl rfl)] at hm
      cases hm

theorem knowsLeg_of_registered : ∀ (acts : List Act) (s : Segment), (∀ a ∈ acts, a.Places s) →
    leg ∈ registrations acts → (s.run acts).scratch.knowsLeg leg = true
  | [], _, _, hleg => by cases hleg
  | a :: acts, s, hacts, hleg => by
    obtain ⟨ha, hrest⟩ := List.forall_mem_cons.1 hacts
    have hstart := ha.isStart
    have hrest' : ∀ b ∈ acts, b.Places (s.after a) := fun b hb => (hrest b hb).after hstart
    rw [registrations, List.flatMap_cons, List.mem_append] at hleg
    rcases hleg with hleg | hleg
    · refine run_knowsLeg _ acts (fun b hb => (hrest' b hb).isStart) ((after_knowsLeg s a hstart leg).2 (.inr ?_))
      rcases ha with hreport | ⟨l, target, rfl, -⟩
      · cases a with
        | register => cases hreport
        | _ => cases hleg
      · rw [List.mem_singleton.1 hleg]
        exact ⟨target, rfl⟩
    · exact knowsLeg_of_registered acts (s.after a) hrest' hleg

section HangUps

variable {acts acts' : List Act} (hb : s.Begins) (hs : s.Placing) (hacts : ∀ a ∈ acts, a.Places s)
  (hn : (registrations acts).Nodup)
include hb hs hacts hn

theorem hangUps_eq_nil_of_unanswered (hnone : (s.run acts).scratch.answeredLeg = none) : s.hangUps acts = [] := by
  have hrun := ledger_of_run hb.ledger acts fun a ha => (hacts a ha).isStart
  refine List.eq_nil_iff_forall_not_mem.2 fun leg hasked => ?_
  by_cases hleg : leg ∈ registrations acts
  · exact (hrun.waiting hn (hs.run acts hacts).unsettled hnone leg (knowsLeg_of_registered acts s hacts hleg)).1 hasked
  · exact (hrun.covered.not_mem hleg).1 hasked

/-- **Who is hung up while legs are placed**: every registered leg but the one that answered, as far as its end was not
recorded before it lost. -/
theorem mem_hangUps_iff : leg ∈ s.hangUps acts ↔ leg ∈ registrations acts ∧
    (∃ winner, (s.run acts).scratch.answeredLeg = some winner ∧ leg ≠ winner) ∧ ¬ s.EndedFirst acts leg := by
  have hstarts : ∀ a ∈ acts, a.isStart = false := fun a ha => (hacts a ha).isStart
  cases hanswered : (s.run acts).scratch.answeredLeg with
  | none => simp [hangUps_eq_nil_of_unanswered hb hs hacts hn hanswered]
  | some winner =>
    obtain ⟨before, seq, now, behind, rfl, hnone, hwins⟩ := exists_answer acts s hstarts hb.unanswered hanswered
    have hbefore : ∀ a ∈ before, a.Places s := fun a ha => hacts a (List.mem_append_left _ ha)
    by_cases hleg : leg = winner
    · -- it is on no list of legs to be hung up: not before its answer, not with it and not behind it
      subst hleg
      obtain ⟨hhang, hquiet⟩ := hangUps_of_answer rfl hnone hwins
      have hbehind : ∀ a ∈ behind, a.Places ((s.run before).after (.agentJoins leg seq now)) := fun a ha => by
        exact ((hacts a (by simp [ha])).run before fun b hb => (hbefore b hb).isStart).after rfl
      have hsilent := winner_not_hungUp behind _ hbehind hwins hquiet
      have hfirst : (registrations before).Nodup := by
        rw [registrations, List.flatMap_append] at hn
        exact (List.nodup_append.1 hn).1
      have hnever : leg ∉ s.hangUps (before ++ .agentJoins leg seq now :: behind) := by
        rw [hangUps_append, ← List.singleton_append, hangUps_append, hangUps_singleton, hhang,
          hangUps_eq_nil_of_unanswered hb hs hbefore hfirst hnone]
        simpa using hsilent
      refine ⟨fun h => absurd h hnever, fun h => ?_⟩
      obtain ⟨-, ⟨l, hl, hne⟩, -⟩ := h
      exact absurd (Option.some.inj hl) hne
    · by_cases hreg : leg ∈ registrations (before ++ .agentJoins winner seq now :: behind)
      · obtain ⟨hzero, hone⟩ := asked_once_of_answered hb.ledger hstarts hn (hs.run before hbefore).unsettled hnone hwins
          hleg (knowsLeg_of_registered _ s hacts hreg)
        refine ⟨fun h => ⟨hreg, ⟨winner, rfl, hleg⟩, fun hended => List.count_eq_zero.1 (hzero hended) h⟩, fun h => ?_⟩
        rw [← List.count_pos_iff, hone h.2.2]
        exact Nat.one_pos
      · have hnever := ((ledger_of_run hb.ledger _ hstarts).covered.not_mem hreg).1
        exact ⟨fun h => absurd h hnever, fun h => absurd h.1 hreg⟩

/-- **What the reports make of an attempt** does not hang on the registrations at all. -/
theorem run_of_reports :
    (s.run acts).scratch.answeredLeg = (s.run (acts.filter Act.reports)).scratch.answeredLeg ∧
      (s.run acts).scratch.endedLegs = (s.run (acts.filter Act.reports)).scratch.endedLegs := by
  rw [run_eq_reports_first acts s hs hacts hn fun leg _ => hb.knowsLeg leg]
  generalize s.run (acts.filter Act.reports) = t
  refine run_induction (P := fun u => u.scratch.answeredLeg = t.scratch.answeredLeg ∧
    u.scratch.endedLegs = t.scratch.endedLegs) (Q := fun a => a ∈ acts ∧ a.reports = false) (fun u a ha hu => ?_) _ t
    (fun a ha => ⟨(List.mem_filter.1 ha).1, by simpa using (List.mem_filter.1 ha).2⟩) ⟨rfl, rfl⟩
  rcases hacts a ha.1 with hreport | ⟨leg, target, rfl, -⟩
  · rw [ha.2] at hreport
    cases hreport
  · rw [scratch_after_register]
    split <;> exact hu

end HangUps

/-- Whether the end of a leg was recorded at a point of a run where nobody had answered. -/
def EndedOpen (s : Segment) (acts : List Act) (leg : String) : Prop :=
  ∃ pre post, acts = pre ++ post ∧ (s.run pre).scratch.answeredLeg = none ∧ leg ∈ (s.run pre).scratch.endedLegs

theorem EndedOpen.endedFirst {acts : List Act} (hb : s.Begins) (hs : s.Placing) (hacts : ∀ a ∈ acts, a.Places s)
    (hn : (registrations acts).Nodup) (h : s.EndedOpen (acts.filter Act.reports) leg) : s.EndedFirst acts leg := by
  obtain ⟨p, q, hpq, hnone, hended⟩ := h
  obtain ⟨pre, post, rfl, rfl, -⟩ := List.filter_eq_append_iff.1 hpq
  rw [registrations, List.flatMap_append] at hn
  obtain ⟨hans, hlegs⟩ := run_of_reports hb hs (fun a ha => hacts a (List.mem_append_left _ ha)) (List.nodup_append.1 hn).1
  exact ⟨pre, post, rfl, by rwa [hlegs], .inl (hans.trans hnone)⟩

theorem endedLegs_of_endedFirst {acts : List Act} (hacts : ∀ a ∈ acts, a.isStart = false) (h : s.EndedFirst acts leg) :
    leg ∈ (s.run acts).scratch.endedLegs := by
  obtain ⟨pre, post, rfl, hended, -⟩ := h
  rw [run_append]
  exact run_endedLegs _ post (fun b hb => hacts b (List.mem_append_right _ hb)) hended

/-- **A leg whose end is not reported behind the answer** is hung up in every order of the phase, or in none. -/
theorem Reorders.mem_hangUps {acts acts' : List Act} (h : Reorders acts acts') (hb : s.Begins) (hs : s.Placing)
    (hacts : ∀ a ∈ acts, a.Places s) (hn : (Segment.registrations acts).Nodup)
    (hends : leg ∈ (s.run acts).scratch.endedLegs → s.EndedOpen (acts.filter Act.reports) leg) :
    leg ∈ s.hangUps acts ↔ leg ∈ s.hangUps acts' := by
  have hacts' : ∀ a ∈ acts', a.Places s := fun a ha => hacts a (h.mem_iff.2 ha)
  have hn' := h.perm.nodup_iff.1 hn
  have halike := h.alike hs hacts hn hb
  have hfirst : s.EndedFirst acts leg ↔ s.EndedFirst acts' leg := by
    by_cases hended : leg ∈ (s.run acts).scratch.endedLegs
    · have hopen := hends hended
      have hopen' := hopen
      rw [h.reports] at hopen'
      exact iff_of_true (hopen.endedFirst hb hs hacts hn) (hopen'.endedFirst hb hs hacts' hn')
    · have hended' : leg ∉ (s.run acts').scratch.endedLegs := by rwa [halike.endedLegs]
      exact iff_of_false (mt (endedLegs_of_endedFirst fun a ha => (hacts a ha).isStart) hended)
        (mt (endedLegs_of_endedFirst fun a ha => (hacts' a ha).isStart) hended')
  rw [mem_hangUps_iff hb hs hacts hn, mem_hangUps_iff hb hs hacts' hn', halike.answeredLeg, hfirst, h.perm.mem_iff]

/-! ## The decision -/

theorem after_dialComplete (ha : a.isStart = false) (h : s.scratch.dialComplete = true) :
    (s.after a).scratch.dialComplete = true := by
  cases a with
  | start => cases ha
  | callerJoins => rw [scratch_after_callerJoins]; split <;> exact h
  | register => rw [scratch_after_register]; split <;> exact h
  | finish => rw [scratch_after_finish]; split <;> simp [h]
  | agentJoins => rw [scratch_after_agentJoins]; split <;> exact h
  | callerLeaves => rw [scratch_after_callerLeaves]; split <;> exact h
  | legEnds => rw [scratch_after_legEnds]; split <;> simp [h]
  | dialEnds => rw [scratch_after_dialEnds]; split <;> simp [h]

/-- **Nothing rings behind a run** that registers each leg once and reports its end. -/
theorem pending_eq_nil_of_ended {acts : List Act} (hb : s.Begins) (hacts : ∀ a ∈ acts, a.isStart = false)
    (hn : (registrations acts).Nodup)
    (hall : ∀ leg ∈ registrations acts, ∃ b ∈ acts, b.ended? s.scratch.attemptSeq = some leg) :
    (s.run acts).scratch.pendingLegs = [] := by
  refine List.eq_nil_iff_forall_not_mem.2 fun leg hrings => ?_
  have hcovered : s.Covered [] [] := hb.ledger.covered
  have hlive := run_pending_live acts s [] [] hcovered hn (fun l hl => by rw [hb.pending] at hl; cases hl) leg hrings
  by_cases hreg : leg ∈ registrations acts
  · exact hlive ((run_endedLegs_iff acts s hacts).2 (.inr (hall leg hreg)))
  · exact ((run_covered acts s [] [] hcovered).not_mem hreg).2 hrings

/-- **An attempt that nobody joins** ends in exactly one decision once every leg is placed and has ended. -/
theorem decisions_of_no_join {acts ends : List Act} (hb : s.Begins) (hs : s.Placing) (hacts : ∀ a ∈ acts, a.Places s)
    (hn : (registrations acts).Nodup) (hjoins : ∀ a ∈ acts, a.joined? s.scratch.attemptSeq = none)
    (hends : ∀ b ∈ ends, ∃ leg seq now, b = .legEnds leg seq now)
    (hall : ∀ leg ∈ registrations acts, ∃ b ∈ acts ++ ends, b.ended? s.scratch.attemptSeq = some leg) (now : Instant) :
    s.decisions (acts ++ .finish s.scratch.attemptSeq now :: ends) = [s.decisionAfterFailure] := by
  have hregistered : registrations (acts ++ .finish s.scratch.attemptSeq now :: ends) = registrations acts := by
    have hnone : registrations ends = [] := List.flatMap_eq_nil_iff.2 fun b hb => by
      obtain ⟨leg, seq, now, rfl⟩ := hends b hb
      rfl
    rw [registrations, List.flatMap_append, List.flatMap_cons]
    show registrations acts ++ ([] ++ registrations ends) = _
    rw [hnone, List.append_nil, List.append_nil]
  have hkinds : ∀ a ∈ acts ++ .finish s.scratch.attemptSeq now :: ends,
      (a.isStart = false ∧ ∀ seq, a ≠ .callerLeaves seq) ∧ a.joined? s.scratch.attemptSeq = none := fun a ha => by
    rcases List.mem_append.1 ha with ha | ha
    · exact ⟨⟨(hacts a ha).isStart, (hacts a ha).ne_callerLeaves⟩, hjoins a ha⟩
    · rcases List.mem_cons.1 ha with rfl | ha
      · exact ⟨⟨rfl, fun _ h => by cases h⟩, rfl⟩
      · obtain ⟨leg, seq, now, rfl⟩ := hends a ha
        exact ⟨⟨rfl, fun _ h => by cases h⟩, rfl⟩
  have hstarts := fun a ha => (hkinds a ha).1.1
  have hcomplete : (s.run (acts ++ .finish s.scratch.attemptSeq now :: ends)).scratch.dialComplete = true := by
    rw [run_append, run_cons]
    refine run_induction (P := fun t => t.scratch.dialComplete = true) (fun _ b hb' ht => after_dialComplete hb' ht) ends _
      (fun b hb' => hstarts b (by simp [hb'])) ?_
    have hseq := run_attemptSeq_of_no_start s acts fun a ha => (hacts a ha).isStart
    rw [scratch_after_finish, if_neg (not_not_intro hseq), claimed_dialComplete]
  have hquiet := pending_eq_nil_of_ended hb hstarts (hregistered ▸ hn) fun leg hleg => by
    obtain ⟨b, hb', hended⟩ := hall leg (hregistered ▸ hleg)
    exact ⟨b, by rcases List.mem_append.1 hb' with h | h <;> simp [h], hended⟩
  have hunanswered := (run_answeredLeg_of_no_join _ s hstarts fun a ha => (hkinds a ha).2).trans hb.unanswered
  refine decisions_of_settling _ s (fun a ha => (hkinds a ha).1) hs.unsettled ?_
  have hopen : s.ExhaustedSettled := fun he => by
    rw [Scratch.isExhausted, hs.incomplete] at he
    cases he
  exact run_exhaustedSettled s _ hopen ((isExhausted_iff _).2 ⟨hcomplete, hquiet, hunanswered⟩)

/-- **The order of registration does not matter, but for whom it leaves to be hung up.**  Of an attempt that is started on a
segment which is attributed to nobody, and of every two orders of the phase in which its legs are placed: the reports come
in one order, and each leg is registered once, at whatever point.  The segments behind are the same but for the order in
which they list their legs, nothing is decided meanwhile, and whatever is done to them from there on decides and hangs up the
same.  A registered leg is hung up exactly if another one answers and its end is not recorded before it loses, which is at
the later of the answer and its registration; so a leg whose end is not reported behind the answer is hung up in every order
or in none.  An attempt that nobody joins ends in exactly one decision, the same in every order. -/
theorem registration_order_immaterial (s : Segment) (resume : Resume) (targets : List DialTarget) (callerId : Option String)
    (timeout : Int) (record : Bool) (acts acts' : List Act) (h : s.answeredBy = none)
    (hacts : ∀ a ∈ acts, a.Places (s.after (.start resume targets callerId timeout record)))
    (hn : (registrations acts).Nodup) (horder : Reorders acts acts') :
    let s₀ := s.after (.start resume targets callerId timeout record)
    (s₀.run acts).Alike (s₀.run acts') ∧
    (s₀.decisions acts = [] ∧ s₀.decisions acts' = []) ∧
    (∀ more, (s₀.run acts).decisions more = (s₀.run acts').decisions more ∧
      ((s₀.run acts).hangUps more).Perm ((s₀.run acts').hangUps more)) ∧
    (∀ leg, leg ∈ s₀.hangUps acts ↔ leg ∈ registrations acts ∧
      (∃ winner, (s₀.run acts).scratch.answeredLeg = some winner ∧ leg ≠ winner) ∧ ¬ s₀.EndedFirst acts leg) ∧
    (∀ leg, (leg ∈ (s₀.run acts).scratch.endedLegs → s₀.EndedOpen (acts.filter Act.reports) leg) →
      (leg ∈ s₀.hangUps acts ↔ leg ∈ s₀.hangUps acts')) ∧
    ((∀ a ∈ acts, a.joined? s₀.scratch.attemptSeq = none) →
      ∀ ends now, (∀ b ∈ ends, ∃ leg seq now, b = .legEnds leg seq now) →
        (∀ leg ∈ registrations acts, ∃ b ∈ acts ++ ends, b.ended? s₀.scratch.attemptSeq = some leg) →
          s₀.decisions (acts ++ .finish s₀.scratch.attemptSeq now :: ends) = [s₀.decisionAfterFailure] ∧
            s₀.decisions (acts' ++ .finish s₀.scratch.attemptSeq now :: ends) = [s₀.decisionAfterFailure]) := by
  intro s₀
  have hb : s₀.Begins := begins_of_start s rfl
  have hs : s₀.Placing := placing_of_start h resume targets callerId timeout record
  have hacts' : ∀ a ∈ acts', a.Places s₀ := fun a ha => hacts a (horder.mem_iff.2 ha)
  have halike := horder.alike hs hacts hn hb
  refine ⟨halike, ⟨hs.decisions_eq_nil acts hacts, hs.decisions_eq_nil acts' hacts'⟩, fun more => (halike.run more).2,
    fun leg => mem_hangUps_iff hb hs hacts hn, fun leg => horder.mem_hangUps hb hs hacts hn,
    fun hjoins ends now hends hall => ?_⟩
  have hone := decisions_of_no_join hb hs hacts hn hjoins hends hall now
  refine ⟨hone, ?_⟩
  rw [decisions_append] at hone ⊢
  rw [← (halike.run _).2.1, hs.decisions_eq_nil acts' hacts']
  rwa [hs.decisions_eq_nil acts hacts] at hone

/-- Two legs of which one ends before it is registered: either order ends in the one decision. -/
theorem one_decision_in_either_order :
    let target : DialTarget := ⟨.phone, "+15550100", "+15550100", none⟩
    let s := Segment.opened "T" "CA1" "CA1" 0 "inbound" .ringing
    let s₀ := s.after (.start ⟨none, some "line", some 1, none, 0, some "simulcall", 2⟩ [target, target] none 30 false)
    let acts : List Act := [.register 1 "first" target, .register 1 "second" target, .legEnds "first" (some 1) 4]
    let acts' : List Act := [.register 1 "second" target, .legEnds "first" (some 1) 4, .register 1 "first" target]
    let ends : List Act := [.legEnds "second" (some 1) 9]
    s.answeredBy = none ∧ (∀ a ∈ acts, a.Places s₀) ∧ (registrations acts).Nodup ∧ Reorders acts acts' ∧
      (s₀.run acts).Alike (s₀.run acts') ∧
      s₀.decisions (acts ++ .finish 1 5 :: ends) = [⟨"T", "CA1", .advance "line" 1 none⟩] ∧
      s₀.decisions (acts' ++ .finish 1 5 :: ends) = [⟨"T", "CA1", .advance "line" 1 none⟩] := by
  intro target s s₀ acts acts' ends
  have hacts : ∀ a ∈ acts, a.Places s₀ := by
    simp only [acts, List.forall_mem_cons]
    exact ⟨.inr ⟨"first", target, rfl, List.mem_cons_self⟩, .inr ⟨"second", target, rfl, List.mem_cons_self⟩, .inl rfl,
      List.forall_mem_nil _⟩
  have hn : (registrations acts).Nodup := by decide
  have horder : Reorders acts acts' := ⟨rfl, by decide⟩
  obtain ⟨halike, -, -, -, -, hone⟩ := registration_order_immaterial s
    ⟨none, some "line", some 1, none, 0, some "simulcall", 2⟩ [target, target] none 30 false acts acts' rfl hacts hn horder
  obtain ⟨hdecided, hdecided'⟩ := hone (by decide) ends 5 (by simp [ends]) (by decide)
  exact ⟨rfl, hacts, hn, horder, halike, hdecided, hdecided'⟩

/-- A leg that loses and ends behind the answer is hung up where it was registered before, and not where it is registered
behind its end. -/
theorem registered_behind_its_end_not_hungUp :
    let target : DialTarget := ⟨.phone, "+15550100", "+15550100", none⟩
    let s := Segment.opened "T" "CA1" "CA1" 0 "inbound" .ringing
    let s₀ := s.after (.start ⟨none, some "line", some 1, none, 0, some "simulcall", 2⟩ [target, target] none 30 false)
    let reports : List Act := [.agentJoins "winner" (some 1) 3, .legEnds "loser" (some 1) 4]
    let acts : List Act := .register 1 "winner" target :: .register 1 "loser" target :: reports
    let acts' : List Act := .register 1 "winner" target :: (reports ++ [.register 1 "loser" target])
    s.answeredBy = none ∧ (∀ a ∈ acts, a.Places s₀) ∧ (registrations acts).Nodup ∧ Reorders acts acts' ∧
      ¬ ∀ leg, leg ∈ s₀.hangUps acts ↔ leg ∈ s₀.hangUps acts' := by
  intro target s s₀ reports acts acts'
  refine ⟨rfl, ?_, by decide, ⟨rfl, by decide⟩, fun hsame => ?_⟩
  · simp only [acts, reports, List.forall_mem_cons]
    exact ⟨.inr ⟨"winner", target, rfl, List.mem_cons_self⟩, .inr ⟨"loser", target, rfl, List.mem_cons_self⟩, .inl rfl,
      .inl rfl, List.forall_mem_nil _⟩
  · have hasked : "loser" ∈ s₀.hangUps acts := by decide
    exact absurd ((hsame "loser").1 hasked) (by decide)

end Switchboard.Segment
