import Switchboard.Proofs.Attempt.FirstAnswer
import Switchboard.Proofs.Attempt.LateJoin
/-!
# Who answered

A segment keeps to whom its answer is attributed.  The answer of a leg attributes the segment to the member whose leg it is,
as far as the leg is known by then; a leg that joined before it was known is looked at again when it is registered.  Neither
takes an attribution back, and no new attempt does: so what an earlier attempt has left stands wherever the later answer
names nobody.  `attribution_of_answer` says exactly where the segment is attributed to the member of the target that was
answered.
-/
namespace Switchboard

/-- The member of a tenant whom an answer of a target is attributed to. -/
def DialTarget.member? (t : DialTarget) : Option String := t.identity.map Identity.tenantUserId

namespace Segment

variable {s : Segment} {a : Act} {leg : String} {target : DialTarget}

/-- The target that an act registers a leg for, with the attempt of a number. -/
def Act.placed? (attempt : Int) (leg : String) : Act → Option DialTarget
  | register seq l target => if seq = attempt ∧ l = leg then some target else none
  | _ => none

theorem Act.placed?_eq_some (attempt : Int) (leg : String) (a : Act) (target : DialTarget) :
    a.placed? attempt leg = some target ↔ a = .register attempt leg target := by
  cases a with
  | register seq l u => simp [placed?, and_assoc]
  | _ => simp [placed?]

/-! ## The targets of legs -/

theorem targetOf_putEntry (leg key : String) (v : Option DialTarget) : ∀ entries : List (String × Option DialTarget),
    (putEntry key v entries).find? (fun e => e.1 = leg) =
      if key = leg then some (key, v) else entries.find? (fun e => e.1 = leg)
  | [] => by
    by_cases h : key = leg <;> simp [putEntry, h]
  | (k, w) :: rest => by
    rw [putEntry]
    by_cases hk : k = key
    · rw [if_pos hk, hk]
      by_cases h : key = leg <;> simp [h]
    · rw [if_neg hk, List.find?_cons, List.find?_cons, targetOf_putEntry leg key v rest]
      by_cases h : key = leg
      · have hkl : k ≠ leg := fun heq => hk (heq.trans h.symm)
        simp [h, hkl]
      · simp [h]

/-- **The target of a leg** is the one that it was registered for last. -/
theorem after_targetOf (ha : a.isStart = false) :
    (s.after a).scratch.targetOf leg =
      (a.placed? s.scratch.attemptSeq leg).or (s.scratch.targetOf leg) := by
  unfold Scratch.targetOf
  cases a with
  | start => cases ha
  | register seq l u =>
    rw [scratch_after_register]
    simp only [Act.placed?]
    by_cases hseq : s.scratch.attemptSeq = seq
    · rw [if_neg (not_not_intro hseq), targetOf_putEntry]
      by_cases hl : l = leg <;> simp [hseq, hl]
    · rw [if_pos hseq, if_neg fun h => hseq h.1.symm, Option.none_or]
  | callerJoins => rw [scratch_after_callerJoins]; split <;> rfl
  | finish => rw [scratch_after_finish]; split <;> simp [Act.placed?]
  | agentJoins => rw [scratch_after_agentJoins]; split <;> rfl
  | callerLeaves => rw [scratch_after_callerLeaves]; split <;> rfl
  | legEnds => rw [scratch_after_legEnds]; split <;> simp [Act.placed?]
  | dialEnds => rw [scratch_after_dialEnds]; split <;> simp [Act.placed?]

theorem after_targets (ha : a.isStart = false) : (s.after a).scratch.targets = s.scratch.targets := by
  have hclaimed (sc : Scratch) : (claimed sc).targets = sc.targets := by unfold claimed; split <;> rfl
  cases a with
  | start => cases ha
  | register => rw [scratch_after_register]; split <;> rfl
  | callerJoins => rw [scratch_after_callerJoins]; split <;> rfl
  | finish => rw [scratch_after_finish]; split <;> simp [hclaimed]
  | agentJoins => rw [scratch_after_agentJoins]; split <;> rfl
  | callerLeaves => rw [scratch_after_callerLeaves]; split <;> rfl
  | legEnds => rw [scratch_after_legEnds]; split <;> simp [hclaimed]
  | dialEnds => rw [scratch_after_dialEnds]; split <;> simp [hclaimed]

/-- A run knows a leg for the target that it registers it for, and for no other, as far as the attempt began with none. -/
structure KnownFor (s : Segment) (leg : String) (target : DialTarget) (registered : Prop) : Prop where
  known : s.scratch.knowsLeg leg = true ↔ registered
  target : registered → s.scratch.targetOf leg = some target
  unknown : ¬ registered → s.scratch.targetOf leg = none

theorem KnownFor.of_begins (h : s.Begins) : s.KnownFor leg target False := by
  refine ⟨?_, False.elim, fun _ => ?_⟩
  · rw [Scratch.knowsLeg, h.placed]
    exact ⟨nofun, False.elim⟩
  · rw [Scratch.targetOf, h.placed]
    rfl

theorem KnownFor.after {registered : Prop} (h : s.KnownFor leg target registered) (ha : a.isStart = false)
    (honly : ∀ u, a = .register s.scratch.attemptSeq leg u → u = target) :
    (s.after a).KnownFor leg target (registered ∨ a = .register s.scratch.attemptSeq leg target) := by
  have hplaced : a.placed? s.scratch.attemptSeq leg = none ∨ a = .register s.scratch.attemptSeq leg target := by
    cases hu : a.placed? s.scratch.attemptSeq leg with
    | none => exact .inl rfl
    | some u =>
      have hreg := (Act.placed?_eq_some _ leg a u).1 hu
      exact .inr (honly u hreg ▸ hreg)
  refine ⟨?_, fun hor => ?_, fun hno => ?_⟩
  · rw [after_knowsLeg s a ha leg, h.known]
    refine or_congr_right ⟨fun ⟨u, hu⟩ => honly u hu ▸ hu, fun hreg => ⟨target, hreg⟩⟩
  · rw [after_targetOf ha]
    rcases hplaced with hnone | hreg
    · rw [hnone, Option.none_or]
      refine h.target (hor.resolve_right fun hreg => ?_)
      rw [(Act.placed?_eq_some _ leg a target).2 hreg] at hnone
      cases hnone
    · rw [(Act.placed?_eq_some _ leg a target).2 hreg]
      rfl
  · rw [not_or] at hno
    rw [after_targetOf ha, hplaced.resolve_right hno.2, Option.none_or]
    exact h.unknown hno.1

theorem KnownFor.run : ∀ (acts : List Act) {s : Segment} {registered : Prop}, s.KnownFor leg target registered →
    (∀ b ∈ acts, b.isStart = false) →
    (∀ u, .register s.scratch.attemptSeq leg u ∈ acts → u = target) →
      (s.run acts).KnownFor leg target (registered ∨ .register s.scratch.attemptSeq leg target ∈ acts)
  | [], s, registered, h, _, _ => by simpa using h
  | a :: acts, s, registered, h, hacts, honly => by
    obtain ⟨ha, hrest⟩ := List.forall_mem_cons.1 hacts
    have hstep := h.after ha fun u hu => honly u (hu ▸ List.mem_cons_self)
    have hrun := KnownFor.run acts hstep hrest fun u hu => by
      rw [after_attemptSeq s a ha] at hu
      exact honly u (List.mem_cons_of_mem _ hu)
    rw [after_attemptSeq s a ha, or_assoc] at hrun
    rw [List.mem_cons, eq_comm (b := a)]
    exact hrun

/-- **To whom a leg of one of the targets belongs**: to the target's member once it is registered, and to nobody before. -/
theorem KnownFor.identityOf {registered : Prop} [Decidable registered] (h : s.KnownFor leg target registered)
    (htarget : target ∈ s.scratch.targets) :
    s.scratch.identityOf leg = if registered then target.identity else none := by
  unfold Scratch.identityOf
  by_cases hreg : registered
  · rw [if_pos hreg, h.target hreg, h.known.2 hreg, Option.bind_some]
    cases hi : target.identity with
    | some i => rfl
    | none =>
      dsimp only
      split
      · rename_i t hone
        rw [hone, List.mem_singleton] at htarget
        rw [if_pos rfl, ← htarget, hi]
      · rfl
  · have hknown : s.scratch.knowsLeg leg = false := Bool.eq_false_iff.2 (mt h.known.1 hreg)
    rw [if_neg hreg, h.unknown hreg, hknown, Option.bind_none]
    dsimp only
    split <;> rfl

/-! ## The attribution -/

theorem claimFailure_answeredBy (s : Segment) (now : Time.Instant) :
    (s.claimFailure now).1.answeredBy = s.answeredBy := by
  unfold claimFailure
  split
  · rfl
  · dsimp only
    split <;> rfl

/-- **While nobody answers the attribution stays**, whatever attempts are started. -/
theorem after_answeredBy_of_unanswered (hs : s.scratch.answeredLeg = none)
    (h : (s.after a).scratch.answeredLeg = none) : (s.after a).answeredBy = s.answeredBy := by
  cases a with
  | start => rfl
  | callerJoins seq conferenceSid =>
    simp only [after, perform, callerJoined]
    cases Flow.given conferenceSid <;> repeat' split
    all_goals rfl
  | register seq l u =>
    simp only [after, perform, registerLeg]
    by_cases hseq : s.scratch.attemptSeq = seq
    · by_cases he : l ∈ s.scratch.endedLegs <;> simp [hseq, hs, he, withScratch]
    · rw [if_pos hseq]
  | finish seq now =>
    simp only [after, perform, finishDialing]
    split
    · rfl
    · exact claimFailure_answeredBy _ now
  | agentJoins l seq now =>
    by_cases hpass : s.scratch.isOther seq = true ∨ s.scratch.answeredLeg.isSome = true ∨ s.isClosed = true
    · rw [after, agentJoins_passed_over hpass]
    · simp only [not_or, Bool.not_eq_true] at hpass
      rw [(agentJoins_counts l now hpass.1 hs hpass.2.2).1] at h
      cases h
  | callerLeaves seq =>
    simp only [after, perform, terminatePending]
    split <;> rfl
  | legEnds l seq now =>
    simp only [after, perform, legEnded]
    split
    · rfl
    · split
      · rfl
      · exact claimFailure_answeredBy _ now
  | dialEnds seq now =>
    simp only [after, perform, claimAfterDial]
    split
    · rfl
    · split
      · rfl
      · exact claimFailure_answeredBy _ now

/-- **Behind the answer an attribution comes only where there is none**, with the registration of the leg that answered. -/
theorem after_answeredBy_of_answered (ha : a.isStart = false) (hs : s.scratch.answeredLeg = some leg) :
    (s.after a).answeredBy =
      s.answeredBy.or ((a.placed? s.scratch.attemptSeq leg).bind DialTarget.member?) := by
  cases a with
  | start => cases ha
  | callerJoins seq conferenceSid =>
    simp only [after, perform, callerJoined, Act.placed?, Option.bind_none, Option.or_none]
    cases Flow.given conferenceSid <;> repeat' split
    all_goals rfl
  | register seq l u =>
    simp only [after, perform, registerLeg, Act.placed?]
    by_cases hseq : s.scratch.attemptSeq = seq
    · rw [if_neg (not_not_intro hseq)]
      by_cases hl : l = leg
      · cases hb : s.answeredBy <;> cases hu : u.identity <;>
          simp [hs, hl, hb, hu, hseq, withScratch, DialTarget.member?]
      · simp [hs, hl, Ne.symm hl, withScratch]
    · rw [if_pos hseq, if_neg fun h => hseq h.1.symm]
      simp
  | finish seq now =>
    simp only [after, perform, finishDialing, Act.placed?, Option.bind_none, Option.or_none]
    split
    · rfl
    · exact claimFailure_answeredBy _ now
  | agentJoins l seq now =>
    rw [after, agentJoins_passed_over (.inr (.inl (by rw [hs]; rfl)))]
    exact (Option.or_none).symm
  | callerLeaves seq =>
    simp only [after, perform, terminatePending, Act.placed?, Option.bind_none, Option.or_none]
    split <;> rfl
  | legEnds l seq now =>
    simp only [after, perform, legEnded, Act.placed?, Option.bind_none, Option.or_none]
    split
    · rfl
    · split
      · rfl
      · exact claimFailure_answeredBy _ now
  | dialEnds seq now =>
    simp only [after, perform, claimAfterDial, Act.placed?, Option.bind_none, Option.or_none]
    split
    · rfl
    · split
      · rfl
      · exact claimFailure_answeredBy _ now

/-- **A segment that is attributed to somebody** stays attributed to somebody. -/
theorem after_answeredBy_isSome (h : s.answeredBy.isSome = true) : (s.after a).answeredBy.isSome = true := by
  cases hs : s.scratch.answeredLeg with
  | none =>
    cases hafter : (s.after a).scratch.answeredLeg with
    | none => rwa [after_answeredBy_of_unanswered hs hafter]
    | some leg =>
      cases ha : a.isStart with
      | true => cases a with
        | start => cases hafter
        | _ => cases ha
      | false =>
        obtain ⟨seq, now, rfl, ho, hc⟩ := answeredLeg_of_after ha hs hafter
        rw [(agentJoins_counts leg now ho hs hc).2.2.2.2, Option.isSome_or, h, Bool.or_true]
  | some leg =>
    cases ha : a.isStart with
    | true => cases a with
      | start => exact h
      | _ => cases ha
    | false => rw [after_answeredBy_of_answered ha hs, Option.isSome_or, h, Bool.true_or]

theorem run_answeredBy_isSome (acts : List Act) (h : s.answeredBy.isSome = true) :
    (s.run acts).answeredBy.isSome = true :=
  run_induction (P := fun t => t.answeredBy.isSome = true) (Q := fun _ => True)
    (fun _ _ _ ht => after_answeredBy_isSome ht) acts s (fun _ _ => trivial) h

/-- **While no attempt is answered the attribution stays.** -/
theorem run_answeredBy_of_unanswered : ∀ (acts : List Act) (s : Segment),
    (∀ p q, acts = p ++ q → (s.run p).scratch.answeredLeg = none) → (s.run acts).answeredBy = s.answeredBy
  | [], _, _ => rfl
  | a :: acts, s, h => by
    have hrest := run_answeredBy_of_unanswered acts (s.after a) fun p q hpq => h (a :: p) q (by rw [hpq]; rfl)
    exact hrest.trans (after_answeredBy_of_unanswered (h [] (a :: acts) rfl) (h [a] acts rfl))

/-- **Behind the answer** the segment is attributed as it is, else to the member of the first target that the leg which
answered is registered for. -/
theorem run_answeredBy_of_answered : ∀ (acts : List Act) (s : Segment), (∀ b ∈ acts, b.isStart = false) →
    s.scratch.answeredLeg = some leg →
      (s.run acts).answeredBy = s.answeredBy.or
        (acts.findSome? fun b => (b.placed? s.scratch.attemptSeq leg).bind DialTarget.member?)
  | [], _, _, _ => by simp
  | a :: acts, s, hacts, hs => by
    obtain ⟨ha, hrest⟩ := List.forall_mem_cons.1 hacts
    rw [run_cons, run_answeredBy_of_answered acts (s.after a) hrest (after_answeredLeg s a ha hs),
      after_answeredBy_of_answered ha hs, after_attemptSeq s a ha, List.findSome?_cons, Option.or_assoc]
    cases (a.placed? s.scratch.attemptSeq leg).bind DialTarget.member? <;> rfl

/-- The act that answers an attempt. -/
theorem exists_answer : ∀ (acts : List Act) (s : Segment), (∀ b ∈ acts, b.isStart = false) →
    s.scratch.answeredLeg = none → (s.run acts).scratch.answeredLeg = some leg →
      ∃ before seq now behind, acts = before ++ .agentJoins leg seq now :: behind ∧
        (s.run before).scratch.answeredLeg = none ∧
        ((s.run before).after (.agentJoins leg seq now)).scratch.answeredLeg = some leg
  | [], s, _, hs, h => by
    rw [run_nil, hs] at h
    cases h
  | a :: acts, s, hacts, hs, h => by
    obtain ⟨ha, hrest⟩ := List.forall_mem_cons.1 hacts
    cases hafter : (s.after a).scratch.answeredLeg with
    | some l =>
      rw [run_cons, run_answeredLeg _ acts hrest hafter, Option.some.injEq] at h
      subst h
      obtain ⟨seq, now, rfl, -, -⟩ := answeredLeg_of_after ha hs hafter
      exact ⟨[], seq, now, acts, rfl, hs, hafter⟩
    | none =>
      obtain ⟨before, seq, now, behind, rfl, hbefore, hanswers⟩ := exists_answer acts (s.after a) hrest hafter h
      exact ⟨a :: before, seq, now, behind, rfl, hbefore, hanswers⟩

/-- What registrations of a leg for one target attribute an answer to. -/
theorem findSome?_placed {attempt : Int} : ∀ acts : List Act, (∀ u, .register attempt leg u ∈ acts → u = target) →
    (acts.findSome? fun b => (b.placed? attempt leg).bind DialTarget.member?) =
      if .register attempt leg target ∈ acts then target.member? else none
  | [], _ => rfl
  | a :: acts, honly => by
    have ih := findSome?_placed acts fun u hu => honly u (List.mem_cons_of_mem _ hu)
    rw [List.findSome?_cons, ih]
    cases hu : a.placed? attempt leg with
    | none =>
      have hne : .register attempt leg target ≠ a := fun heq => by
        rw [(Act.placed?_eq_some _ _ _ _).2 heq.symm] at hu
        cases hu
      simp [hne]
    | some u =>
      have ha := (Act.placed?_eq_some _ _ _ _).1 hu
      obtain rfl := honly u (ha ▸ List.mem_cons_self)
      have hmem : .register attempt leg u ∈ a :: acts := ha ▸ List.mem_cons_self
      rw [Option.bind_some, if_pos hmem]
      cases u.member? <;> simp

/-- **To whom the answer of an attempt is attributed.**  Where the leg that answered was registered before, to its target's
member, or as before if it has none; where it is registered behind the answer, as before, or to the member if to nobody. -/
theorem answeredBy_of_answer (hs : s.Begins) {before behind : List Act} {seq : Option Int} {now : Time.Instant}
    (hacts : ∀ b ∈ before ++ .agentJoins leg seq now :: behind, b.isStart = false)
    (htarget : target ∈ s.scratch.targets)
    (honly : ∀ u, .register s.scratch.attemptSeq leg u ∈ before ++ .agentJoins leg seq now :: behind → u = target)
    (hreg : .register s.scratch.attemptSeq leg target ∈ before ++ .agentJoins leg seq now :: behind)
    (hnone : (s.run before).scratch.answeredLeg = none)
    (hanswers : ((s.run before).after (.agentJoins leg seq now)).scratch.answeredLeg = some leg) :
    (s.run (before ++ .agentJoins leg seq now :: behind)).answeredBy =
      if .register s.scratch.attemptSeq leg target ∈ before then target.member?.or s.answeredBy
      else s.answeredBy.or target.member? := by
  have hbefore : ∀ b ∈ before, b.isStart = false := fun b hb => hacts b (List.mem_append_left _ hb)
  have hbehind : ∀ b ∈ behind, b.isStart = false := fun b hb => hacts b (by simp [hb])
  have hseq := run_attemptSeq_of_no_start s before hbefore
  obtain ⟨_, _, heq, ho, hc⟩ := answeredLeg_of_after rfl hnone hanswers
  cases heq
  -- nobody has answered before, so the attribution is as the attempt found it
  have hkept : (s.run before).answeredBy = s.answeredBy :=
    run_answeredBy_of_unanswered before s fun p q hpq => by
      cases hp : (s.run p).scratch.answeredLeg with
      | none => rfl
      | some l =>
        rw [hpq, run_append, run_answeredLeg _ q (fun b hb => hbefore b (hpq ▸ List.mem_append_right _ hb)) hp] at hnone
        cases hnone
  have hbegins : s.KnownFor leg target False := KnownFor.of_begins hs
  have hknown := hbegins.run before hbefore fun u hu => honly u (List.mem_append_left _ hu)
  rw [false_or] at hknown
  have htargets : (s.run before).scratch.targets = s.scratch.targets :=
    run_induction (P := fun t => t.scratch.targets = s.scratch.targets)
      (fun t b hb ht => (after_targets hb).trans ht) before s hbefore rfl
  have hanswer := (agentJoins_counts leg now ho hnone hc).2.2.2.2
  rw [hknown.identityOf (htargets ▸ htarget), hkept] at hanswer
  rw [run_append, run_cons, run_answeredBy_of_answered behind _ hbehind hanswers, hanswer,
    after_attemptSeq _ _ rfl, hseq]
  rw [findSome?_placed behind fun u hu => honly u (by simp [hu])]
  have hor : .register s.scratch.attemptSeq leg target ∈ before ∨ .register s.scratch.attemptSeq leg target ∈ behind := by
    simpa using hreg
  by_cases hfirst : .register s.scratch.attemptSeq leg target ∈ before
  · rw [if_pos hfirst, if_pos hfirst]
    change (target.member?.or s.answeredBy).or _ = _
    cases target.member? with
    | some m => rfl
    | none => rw [ite_self, Option.or_none]
  · rw [if_neg hfirst, if_neg hfirst, if_pos (hor.resolve_left hfirst)]
    rfl

/-- **Attribution follows the winner only where nobody else was attributed before.**  The leg that answered an attempt was
placed for a target.  The segment is attributed to the target's member, or to nobody if it has none, exactly if it was
attributed to nobody when the attempt began, or to that member already, or the target has a member and the leg was
registered before it joined; otherwise whom an earlier attempt was attributed to stays.  The first attempt that is answered
finds nobody attributed who was not before, and behind an attribution a segment is never again without one. -/
theorem attribution_of_answer (s : Segment) (prior acts : List Act) (leg : String) (target : DialTarget)
    (hbegins : (s.run prior).Begins) (hacts : ∀ b ∈ acts, b.isStart = false)
    (htarget : target ∈ (s.run prior).scratch.targets)
    (hreg : .register (s.run prior).scratch.attemptSeq leg target ∈ acts)
    (honly : ∀ u, .register (s.run prior).scratch.attemptSeq leg u ∈ acts → u = target)
    (hanswered : ((s.run prior).run acts).scratch.answeredLeg = some leg) :
    let b := s.run prior
    (∃ before seq now behind, acts = before ++ .agentJoins leg seq now :: behind ∧
      (b.run before).scratch.answeredLeg = none ∧
      ((b.run acts).answeredBy = target.member? ↔
        b.answeredBy = none ∨ b.answeredBy = target.member? ∨
          target.member?.isSome = true ∧ .register b.scratch.attemptSeq leg target ∈ before) ∧
      ((b.run acts).answeredBy ≠ target.member? → (b.run acts).answeredBy = b.answeredBy)) ∧
    ((∀ p q, prior = p ++ q → (s.run p).scratch.answeredLeg = none) → b.answeredBy = s.answeredBy) ∧
    (s.answeredBy.isSome = true → b.answeredBy.isSome = true) := by
  intro b
  refine ⟨?_, run_answeredBy_of_unanswered prior s, run_answeredBy_isSome prior⟩
  obtain ⟨before, seq, now, behind, rfl, hnone, hanswers⟩ := exists_answer acts b hacts hbegins.unanswered hanswered
  have hvalue := answeredBy_of_answer hbegins hacts htarget honly hreg hnone hanswers
  refine ⟨before, seq, now, behind, rfl, hnone, ?_, ?_⟩ <;> rw [hvalue]
  · by_cases hfirst : .register b.scratch.attemptSeq leg target ∈ before
    · rw [if_pos hfirst]
      cases target.member? <;> cases b.answeredBy <;> simp [hfirst]
    · rw [if_neg hfirst]
      cases target.member? <;> cases b.answeredBy <;> simp [hfirst]
  · by_cases hfirst : .register b.scratch.attemptSeq leg target ∈ before
    · rw [if_pos hfirst]
      cases target.member? <;> cases b.answeredBy <;> simp
    · rw [if_neg hfirst]
      cases target.member? <;> cases b.answeredBy <;> simp

/-- A member answers, and the next attempt is answered by a telephone that is nobody's: the member stays the one who did. -/
theorem member_stays_attributed :
    let alice : DialTarget := ⟨.client, "T:alice", "alice", some ⟨"T", "alice", "tu-alice"⟩⟩
    let phone : DialTarget := ⟨.phone, "+15550100", "+15550100", none⟩
    let s := Segment.opened "T" "CA1" "CA1" 0 "inbound" .ringing
    let prior : List Act := [.start ⟨none, some "line", some 1, none, 0, some "dial", 1⟩ [alice] none 30 false,
      .callerJoins (some 1) none, .register 1 "first" alice, .finish 1 0, .agentJoins "first" (some 1) 5,
      .start ⟨none, some "line", some 2, none, 0, some "dial", 1⟩ [phone] none 30 false]
    let acts : List Act := [.callerJoins (some 2) none, .register 2 "second" phone, .finish 2 10,
      .agentJoins "second" (some 2) 15]
    (s.run prior).Begins ∧ ((s.run prior).run acts).scratch.answeredLeg = some "second" ∧ phone.member? = none ∧
      ((s.run prior).run acts).answeredBy = some "tu-alice" := by
  intro alice phone s prior acts
  have hbegins : (s.run prior).Begins := ⟨by decide, by decide, by decide, by decide⟩
  have hanswered : ((s.run prior).run acts).scratch.answeredLeg = some "second" := by decide
  have honly : ∀ u, .register (s.run prior).scratch.attemptSeq "second" u ∈ acts → u = phone := by
    intro u hu
    have hboth : (s.run prior).scratch.attemptSeq = 2 ∧ u = phone := by simpa [acts] using hu
    exact hboth.2
  have hreg : .register (s.run prior).scratch.attemptSeq "second" phone ∈ acts := by decide
  obtain ⟨⟨before, seq, now, behind, -, -, hiff, hstays⟩, -⟩ := attribution_of_answer s prior acts "second" phone hbegins
    (by decide) (by decide) hreg honly hanswered
  have hearlier : (s.run prior).answeredBy = some "tu-alice" := by decide
  refine ⟨hbegins, hanswered, rfl, (hstays fun h => ?_).trans hearlier⟩
  rcases hiff.1 h with h | h | h
  · rw [hearlier] at h
    cases h
  · rw [hearlier] at h
    cases h
  · cases h.1

end Segment

end Switchboard
