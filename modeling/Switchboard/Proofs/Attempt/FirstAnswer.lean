import Switchboard.Proofs.Attempt.Step
/-!
# The first answer wins

Legs are registered, join and end in any order, and a leg may join or end before it is registered.  A ledger beside the run
counts: of each leg, what was hung up and what still rings together never exceed its registrations (`Covered`), and while
the attempt is neither answered nor settled every registered leg rings or has ended (`Waiting`).  A leg loses at the later
of its registration and the answer; `asked_once_of_lost` says that it is hung up there, or that its end came first.
-/
namespace Switchboard.Segment

/-- The legs that an act registers. -/
def Act.registers : Act → List String
  | register _ leg _ => [leg]
  | _ => []

/-- The legs whose end an act reports. -/
def Act.ends : Act → List String
  | legEnds leg _ _ => [leg]
  | _ => []

/-- The legs that a run registers. -/
def registrations (acts : List Act) : List String := acts.flatMap Act.registers

/-! ## The ledger of an attempt -/

/-- What was hung up and what still rings never exceed the registrations. -/
def Covered (s : Segment) (asked registered : List String) : Prop :=
  ∀ leg, asked.count leg + s.scratch.pendingLegs.count leg ≤ registered.count leg

/-- Every leg that the attempt knows was registered. -/
def Listed (s : Segment) (registered : List String) : Prop :=
  ∀ leg, s.scratch.knowsLeg leg = true → leg ∈ registered

/-- While the attempt is open no registered leg was hung up, and each of them rings until it ends. -/
def Waiting (s : Segment) (asked : List String) : Prop :=
  s.scratch.failureHandled = false → s.scratch.answeredLeg = none → ∀ leg, s.scratch.knowsLeg leg = true →
    leg ∉ asked ∧ (leg ∈ s.scratch.pendingLegs ↔ leg ∉ s.scratch.endedLegs)

/-- **No act hangs up a leg that does not ring, or rings one that is not registered.** -/
theorem after_covered {s : Segment} {asked registered : List String} (a : Act) (h : s.Covered asked registered) :
    (s.after a).Covered (asked ++ (s.effect a).hangUps) (registered ++ a.registers) := by
  intro leg
  have hleg := h leg
  rw [List.count_append, List.count_append]
  cases a with
  | start =>
    rw [scratch_after_start]
    simp only [Scratch.startAttempt, effect, perform, Act.registers, List.count_nil]
    omega
  | callerJoins =>
    rw [scratch_after_callerJoins]
    simp only [effect, perform, Act.registers, List.count_nil]
    split <;> exact hleg
  | register seq l target =>
    rw [scratch_after_register, hangUps_of_register]
    simp only [Act.registers]
    by_cases hseq : s.scratch.attemptSeq = seq
    · have hne : ¬ s.scratch.attemptSeq ≠ seq := fun h => h hseq
      rw [if_neg hne, if_neg hne]
      dsimp only
      -- a leg that is hung up at its registration is one that nobody waits for
      by_cases ha : s.scratch.answeredLeg = none ∧ l ∉ s.scratch.endedLegs
      · rw [if_pos ha, ha.1, List.count_append]
        simp
        omega
      · rw [if_neg ha]
        split
        · omega
        · rw [List.count_nil]
          omega
    · rw [if_pos hseq, if_pos hseq]
      omega
  | finish =>
    rw [scratch_after_finish]
    simp only [effect, perform, Act.registers, List.count_nil]
    split
    · exact hleg
    · rw [claimed_pendingLegs]
      exact hleg
  | agentJoins l seq now =>
    rw [scratch_after_agentJoins, hangUps_of_agentJoins]
    simp only [Act.registers, List.count_nil]
    split
    · exact hleg
    · have := List.Sublist.count_le leg (List.filter_sublist (p := fun x => decide (x ≠ l)) (l := s.scratch.pendingLegs))
      dsimp only
      rw [List.count_nil]
      omega
  | callerLeaves =>
    rw [scratch_after_callerLeaves, hangUps_of_callerLeaves]
    simp only [Act.registers, List.count_nil]
    split
    · exact hleg
    · exact hleg
  | legEnds l seq now =>
    rw [scratch_after_legEnds]
    simp only [effect, perform, Act.registers, List.count_nil]
    split
    · exact hleg
    · rw [claimed_pendingLegs]
      have := List.Sublist.count_le leg (List.erase_sublist (a := l) (l := s.scratch.pendingLegs))
      dsimp only
      omega
  | dialEnds =>
    rw [scratch_after_dialEnds, hangUps_of_dialEnds]
    simp only [Act.registers, List.count_nil]
    split
    · exact hleg
    · rw [claimed_pendingLegs]
      exact hleg

theorem after_listed {s : Segment} {registered : List String} (a : Act) (ha : a.isStart = false)
    (h : s.Listed registered) : (s.after a).Listed (registered ++ a.registers) := by
  intro leg hk
  rw [List.mem_append]
  rcases (after_knowsLeg s a ha leg).1 hk with hk | ⟨target, rfl⟩
  · exact .inl (h leg hk)
  · exact .inr (List.mem_singleton.2 rfl)

/-- A leg that was not registered was not hung up and does not ring. -/
theorem Covered.not_mem {s : Segment} {asked registered : List String} (h : s.Covered asked registered) {leg : String}
    (hleg : leg ∉ registered) : leg ∉ asked ∧ leg ∉ s.scratch.pendingLegs := by
  have hc := h leg
  rw [List.count_eq_zero.2 hleg] at hc
  exact ⟨List.count_eq_zero.1 (by omega), List.count_eq_zero.1 (by omega)⟩

/-- An attempt that is open behind an act was open before it. -/
theorem open_of_after_open {s : Segment} {a : Act} (ha : a.isStart = false)
    (hf : (s.after a).scratch.failureHandled = false) (hans : (s.after a).scratch.answeredLeg = none) :
    s.scratch.failureHandled = false ∧ s.scratch.answeredLeg = none := by
  constructor
  · cases h : s.scratch.failureHandled with
    | false => rfl
    | true =>
      rw [after_failureHandled s a ha h] at hf
      cases hf
  · cases h : s.scratch.answeredLeg with
    | none => rfl
    | some leg =>
      rw [after_answeredLeg s a ha h] at hans
      cases hans

/-- **An act that leaves the attempt open** and neither registers nor ends a leg changes nothing about the legs. -/
theorem after_of_open {s : Segment} {a : Act} (ha : a.isStart = false) (hreg : a.registers = []) (hend : a.ends = [])
    (hf : (s.after a).scratch.failureHandled = false) (hans : (s.after a).scratch.answeredLeg = none) :
    (s.effect a).hangUps = [] ∧ (s.after a).scratch.pendingLegs = s.scratch.pendingLegs ∧
      (s.after a).scratch.endedLegs = s.scratch.endedLegs := by
  cases a with
  | start => cases ha
  | register => cases hreg
  | legEnds => cases hend
  | callerJoins =>
    rw [scratch_after_callerJoins]
    exact ⟨rfl, by split <;> rfl, by split <;> rfl⟩
  | finish =>
    rw [scratch_after_finish]
    exact ⟨rfl, by split <;> simp, by split <;> simp⟩
  | agentJoins =>
    rw [scratch_after_agentJoins] at hans ⊢
    rw [hangUps_of_agentJoins]
    split at hans
    · rw [if_pos ‹_›, if_pos ‹_›]
      exact ⟨rfl, rfl, rfl⟩
    · cases hans
  | callerLeaves =>
    rw [scratch_after_callerLeaves] at hf ⊢
    rw [hangUps_of_callerLeaves]
    split at hf
    · rw [if_pos ‹_›, if_pos ‹_›]
      exact ⟨rfl, rfl, rfl⟩
    · cases hf
  | dialEnds =>
    rw [scratch_after_dialEnds] at hf hans ⊢
    rw [hangUps_of_dialEnds]
    split at hf
    · rw [if_pos ‹_›, if_pos ‹_›]
      exact ⟨rfl, rfl, rfl⟩
    · -- the status of the whole dial leaves nothing to wait for
      rw [if_neg ‹_›, claimed_answeredLeg] at hans
      rw [claimed_failureHandled, Bool.or_eq_false_iff] at hf
      have hwaits := hf.2
      dsimp only at hans
      rw [Scratch.isExhausted, hans] at hwaits
      cases hwaits

/-- **An open attempt goes on waiting for every leg that it knows.** -/
theorem after_waiting {s : Segment} {asked registered : List String} (a : Act) (ha : a.isStart = false)
    (hn : (registered ++ a.registers).Nodup) (hc : s.Covered asked registered) (hl : s.Listed registered)
    (h : s.Waiting asked) : (s.after a).Waiting (asked ++ (s.effect a).hangUps) := by
  intro hf hans leg hk
  obtain ⟨hf₀, hans₀⟩ := open_of_after_open ha hf hans
  have hknown := (after_knowsLeg s a ha leg).1 hk
  have hwaits := h hf₀ hans₀
  cases a with
  | register seq l target =>
    have hnew : l ∉ registered := fun hm => by
      rw [List.nodup_append] at hn
      exact hn.2.2 l hm l List.mem_cons_self rfl
    rw [scratch_after_register, hangUps_of_register]
    by_cases hseq : s.scratch.attemptSeq = seq
    · rw [if_neg (not_not_intro hseq), if_neg (not_not_intro hseq)]
      simp only [hans₀, Option.isSome_none, Bool.false_eq_true, false_and, if_false, List.append_nil, true_and]
      by_cases hleg : leg = l
      · subst hleg
        obtain ⟨hasked, hrings⟩ := hc.not_mem hnew
        refine ⟨hasked, ?_⟩
        split <;> simp_all
      · have hknew : s.scratch.knowsLeg leg = true := hknown.resolve_right fun hreg => by
          obtain ⟨_, hreg⟩ := hreg
          cases hreg
          exact hleg rfl
        obtain ⟨hasked, hrings⟩ := hwaits leg hknew
        refine ⟨hasked, ?_⟩
        split <;> simp [hrings, hleg]
    · -- a leg of an earlier attempt is hung up, and is none that the attempt knows
      have hknew : s.scratch.knowsLeg leg = true := hknown.resolve_right fun hreg => by
        obtain ⟨_, hreg⟩ := hreg
        cases hreg
        exact hseq rfl
      obtain ⟨hasked, hrings⟩ := hwaits leg hknew
      rw [if_pos hseq, if_pos hseq, List.mem_append, List.mem_singleton]
      refine ⟨fun hm => ?_, hrings⟩
      rcases hm with hm | rfl
      · exact hasked hm
      · exact hnew (hl leg hknew)
  | legEnds l seq now =>
    obtain hk | ⟨_, hreg⟩ := hknown
    · obtain ⟨hasked, hrings⟩ := hwaits leg hk
      rw [scratch_after_legEnds]
      simp only [effect, perform, List.append_nil]
      refine ⟨hasked, ?_⟩
      split
      · exact hrings
      · rw [claimed_pendingLegs, claimed_endedLegs]
        dsimp only
        by_cases hleg : leg = l
        · -- the leg rang once at most, so it rings no more
          subst hleg
          have hone := hc leg
          have hreg : registered.count leg ≤ 1 := List.nodup_iff_count.1 (List.nodup_append.1 hn).1 leg
          have hgone : leg ∉ s.scratch.pendingLegs.erase leg := by
            rw [← List.count_eq_zero, List.count_erase_self]
            omega
          simp [hgone]
        · rw [List.mem_erase_of_ne hleg, hrings]
          simp [hleg]
    · cases hreg
  | _ =>
    obtain hk | ⟨_, hreg⟩ := hknown
    · obtain ⟨hhang, hpending, hended⟩ := after_of_open ha rfl rfl hf hans
      rw [hhang, hpending, hended, List.append_nil]
      exact hwaits leg hk
    · cases hreg

/-- What is known of an attempt beside the legs that it has hung up and registered. -/
structure Ledger (s : Segment) (asked registered : List String) : Prop where
  covered : s.Covered asked registered
  listed : s.Listed registered
  waiting : registered.Nodup → s.Waiting asked

theorem ledger_of_start (s : Segment) (resume : Resume) (targets : List DialTarget) (callerId : Option String)
    (timeout : Int) (record : Bool) : (s.after (.start resume targets callerId timeout record)).Ledger [] [] := by
  refine ⟨fun leg => ?_, fun leg h => ?_, fun _ _ _ leg h => ?_⟩
  · rw [scratch_after_start]
    exact Nat.le_refl 0
  · rw [scratch_after_start] at h
    cases h
  · rw [scratch_after_start] at h
    cases h

/-- **The ledger of a run.** -/
theorem run_ledger : ∀ (acts : List Act) (s : Segment) (asked registered : List String),
    (∀ a ∈ acts, a.isStart = false) → s.Ledger asked registered →
      (s.run acts).Ledger (asked ++ s.hangUps acts) (registered ++ registrations acts)
  | [], s, asked, registered, _, h => by
    rw [show s.hangUps [] = [] from rfl, show registrations [] = [] from rfl, List.append_nil, List.append_nil]
    exact h
  | a :: acts, s, asked, registered, hacts, h => by
    have ha : a.isStart = false := hacts a List.mem_cons_self
    have hstep : (s.after a).Ledger (asked ++ (s.effect a).hangUps) (registered ++ a.registers) :=
      ⟨after_covered a h.covered, after_listed a ha h.listed, fun hn =>
        after_waiting a ha hn h.covered h.listed (h.waiting (List.nodup_append.1 hn).1)⟩
    have hrest := run_ledger acts (s.after a) _ _ (fun b hb => hacts b (List.mem_cons_of_mem _ hb)) hstep
    rw [List.append_assoc, List.append_assoc] at hrest
    exact hrest

theorem ledger_of_run {s : Segment} (h : s.Ledger [] []) (acts : List Act) (hacts : ∀ a ∈ acts, a.isStart = false) :
    (s.run acts).Ledger (s.hangUps acts) (registrations acts) := by
  have := run_ledger acts s [] [] hacts h
  rwa [List.nil_append, List.nil_append] at this

/-! ## The answer -/

theorem run_answeredLeg (s : Segment) (acts : List Act) (hacts : ∀ a ∈ acts, a.isStart = false) {leg : String}
    (h : s.scratch.answeredLeg = some leg) : (s.run acts).scratch.answeredLeg = some leg :=
  run_induction (P := fun s => s.scratch.answeredLeg = some leg) (fun s a ha hs => after_answeredLeg s a ha hs) acts s
    hacts h

theorem run_endedLegs (s : Segment) (acts : List Act) (hacts : ∀ a ∈ acts, a.isStart = false) {leg : String}
    (h : leg ∈ s.scratch.endedLegs) : leg ∈ (s.run acts).scratch.endedLegs :=
  run_induction (P := fun s => leg ∈ s.scratch.endedLegs) (fun s a ha hs => after_endedLegs s a ha hs) acts s hacts h

theorem run_knowsLeg (s : Segment) (acts : List Act) (hacts : ∀ a ∈ acts, a.isStart = false) {leg : String}
    (h : s.scratch.knowsLeg leg = true) : (s.run acts).scratch.knowsLeg leg = true :=
  run_induction (P := fun s => s.scratch.knowsLeg leg = true) (fun s a ha hs => (after_knowsLeg s a ha leg).2 (.inl hs))
    acts s hacts h

/-- The answer makes no leg known. -/
theorem knowsLeg_of_answer {s : Segment} {a : Act} (ha : a.isStart = false) {winner : String}
    (hs : s.scratch.answeredLeg = none) (hw : (s.after a).scratch.answeredLeg = some winner) (leg : String) :
    (s.after a).scratch.knowsLeg leg = s.scratch.knowsLeg leg := by
  obtain ⟨seq, now, rfl, -, -⟩ := answeredLeg_of_after ha hs hw
  rw [scratch_after_agentJoins]
  split <;> rfl

/-- **The answer hangs up every other leg that rings**, and nothing rings behind it. -/
theorem hangUps_of_answer {s : Segment} {a : Act} (ha : a.isStart = false) {leg : String}
    (hs : s.scratch.answeredLeg = none) (h : (s.after a).scratch.answeredLeg = some leg) :
    (s.effect a).hangUps = s.scratch.pendingLegs.filter (· ≠ leg) ∧ (s.after a).scratch.pendingLegs = [] := by
  obtain ⟨seq, now, rfl, ho, hc⟩ := answeredLeg_of_after ha hs h
  rw [hangUps_of_agentJoins, scratch_after_agentJoins, ho, hs, hc]
  exact ⟨rfl, rfl⟩

/-- **A leg that is registered behind the answer of another is hung up unless it has ended.** -/
theorem hangUps_of_register_answered {s : Segment} {winner : String} (h : s.scratch.answeredLeg = some winner)
    (leg : String) (target : DialTarget) :
    (s.effect (.register s.scratch.attemptSeq leg target)).hangUps =
      if leg = winner ∨ leg ∈ s.scratch.endedLegs then [] else [leg] := by
  rw [hangUps_of_register, if_neg (fun hne => hne rfl), h]
  by_cases hl : winner = leg
  · simp [hl]
  · have hl' : leg ≠ winner := fun h => hl h.symm
    by_cases he : leg ∈ s.scratch.endedLegs <;> simp [hl, hl', he]

/-- Behind the answer nothing rings, and only registrations hang up. -/
theorem after_silent {s : Segment} (a : Act) (ha : a.isStart = false) {winner : String}
    (hw : s.scratch.answeredLeg = some winner) (hp : s.scratch.pendingLegs = []) :
    (s.after a).scratch.pendingLegs = [] ∧ ∀ leg ∈ (s.effect a).hangUps, leg ∈ a.registers := by
  cases a with
  | start => cases ha
  | callerJoins =>
    rw [scratch_after_callerJoins]
    exact ⟨by split <;> exact hp, fun _ hm => hm⟩
  | register seq l target =>
    rw [scratch_after_register, hangUps_of_register, hw]
    refine ⟨by split <;> simp [hp], fun leg hm => ?_⟩
    split at hm
    · exact hm
    · split at hm
      · exact hm
      · cases hm
  | finish =>
    rw [scratch_after_finish]
    exact ⟨by split <;> simp [hp], fun _ hm => hm⟩
  | agentJoins =>
    rw [scratch_after_agentJoins, hangUps_of_agentJoins, hw]
    simp [hp]
  | callerLeaves =>
    rw [scratch_after_callerLeaves, hangUps_of_callerLeaves, hp]
    refine ⟨by split <;> simp [hp], fun leg hm => ?_⟩
    split at hm <;> cases hm
  | legEnds =>
    rw [scratch_after_legEnds]
    exact ⟨by split <;> simp [hp], fun _ hm => hm⟩
  | dialEnds =>
    rw [scratch_after_dialEnds, hangUps_of_dialEnds, hw]
    simp [hp]

theorem run_silent (s : Segment) (acts : List Act) (hacts : ∀ a ∈ acts, a.isStart = false) {winner : String}
    (hw : s.scratch.answeredLeg = some winner) (hp : s.scratch.pendingLegs = []) :
    (s.run acts).scratch.answeredLeg = some winner ∧ (s.run acts).scratch.pendingLegs = [] :=
  run_induction (P := fun s => s.scratch.answeredLeg = some winner ∧ s.scratch.pendingLegs = [])
    (fun s a ha hs => ⟨after_answeredLeg s a ha hs.1, (after_silent a ha hs.1 hs.2).1⟩) acts s hacts ⟨hw, hp⟩

/-- **A run behind the answer hangs up only legs that it registers.** -/
theorem hangUps_of_silent : ∀ (acts : List Act) (s : Segment), (∀ a ∈ acts, a.isStart = false) → ∀ {winner : String},
    s.scratch.answeredLeg = some winner → s.scratch.pendingLegs = [] →
      ∀ leg ∈ s.hangUps acts, leg ∈ registrations acts
  | [], _, _, _, _, _, _, hm => by cases hm
  | a :: acts, s, hacts, winner, hw, hp, leg, hm => by
    have ha : a.isStart = false := hacts a List.mem_cons_self
    obtain ⟨hp', hreg⟩ := after_silent a ha hw hp
    rw [show a :: acts = [a] ++ acts from rfl, hangUps_append, hangUps_singleton, List.mem_append] at hm
    rw [registrations, List.flatMap_cons, List.mem_append]
    rcases hm with hm | hm
    · exact .inl (hreg leg hm)
    · exact .inr (hangUps_of_silent acts (s.after a) (fun b hb => hacts b (List.mem_cons_of_mem _ hb))
        (after_answeredLeg s a ha hw) hp' leg hm)

/-! ## Exactly once -/

/-- Whether the end of a leg was recorded at a point of a run where the leg had not lost yet: nobody had answered, or the
leg was not registered. -/
def EndedFirst (s : Segment) (acts : List Act) (leg : String) : Prop :=
  ∃ pre post, acts = pre ++ post ∧ leg ∈ (s.run pre).scratch.endedLegs ∧
    ((s.run pre).scratch.answeredLeg = none ∨ (s.run pre).scratch.knowsLeg leg = false)

/-- **A leg's end came first exactly if it was recorded when the leg lost.** -/
theorem endedFirst_iff (s : Segment) (pre : List Act) (a : Act) (post : List Act) (leg winner : String)
    (hacts : ∀ b ∈ pre ++ a :: post, b.isStart = false)
    (hopen : (s.run pre).scratch.answeredLeg = none ∨ (s.run pre).scratch.knowsLeg leg = false)
    (hw : ((s.run pre).after a).scratch.answeredLeg = some winner)
    (hk : ((s.run pre).after a).scratch.knowsLeg leg = true) :
    s.EndedFirst (pre ++ a :: post) leg ↔ leg ∈ (s.run pre).scratch.endedLegs := by
  constructor
  · rintro ⟨p, q, hpq, he, ho⟩
    rcases List.append_eq_append_iff.1 hpq with ⟨r, rfl, hr⟩ | ⟨r, rfl, -⟩
    · cases r with
      | nil => simpa using he
      | cons b r =>
        -- the point lies behind the loss of the leg
        obtain ⟨rfl, rfl⟩ := List.cons.inj hr
        have hr' : ∀ c ∈ r, c.isStart = false := fun c hc => hacts c (by simp [hc])
        rw [run_append, run_cons] at ho
        rw [run_answeredLeg _ r hr' hw, run_knowsLeg _ r hr' hk] at ho
        rcases ho with ho | ho <;> cases ho
    · rw [run_append]
      exact run_endedLegs _ r (fun b hb => hacts b (by simp [hb])) he
  · intro he
    exact ⟨pre, a :: post, rfl, he, hopen⟩

/-- The act that makes a leg known. -/
theorem exists_register_of_knowsLeg (leg : String) : ∀ (acts : List Act) (s : Segment),
    (∀ a ∈ acts, a.isStart = false) → s.scratch.knowsLeg leg = false → (s.run acts).scratch.knowsLeg leg = true →
      ∃ pre target post, acts = pre ++ .register (s.run pre).scratch.attemptSeq leg target :: post ∧
        (s.run pre).scratch.knowsLeg leg = false
  | [], s, _, h, hk => by
    rw [run_nil, h] at hk
    cases hk
  | a :: acts, s, hacts, h, hk => by
    have ha : a.isStart = false := hacts a List.mem_cons_self
    cases hafter : (s.after a).scratch.knowsLeg leg with
    | true =>
      obtain hs | ⟨target, rfl⟩ := (after_knowsLeg s a ha leg).1 hafter
      · rw [h] at hs
        cases hs
      · exact ⟨[], target, acts, rfl, h⟩
    | false =>
      obtain ⟨pre, target, post, rfl, hpre⟩ := exists_register_of_knowsLeg leg acts (s.after a)
        (fun b hb => hacts b (List.mem_cons_of_mem _ hb)) hafter hk
      exact ⟨a :: pre, target, post, rfl, hpre⟩

/-- **A leg that is hung up where it loses is hung up once**, and one whose end came first never. -/
theorem asked_once_of_lost {s : Segment} {pre : List Act} {a : Act} {post : List Act} {leg winner : String}
    (hacts : ∀ b ∈ pre ++ a :: post, b.isStart = false) (hn : (registrations (pre ++ a :: post)).Nodup)
    (hopen : (s.run pre).scratch.answeredLeg = none ∨ (s.run pre).scratch.knowsLeg leg = false)
    (hw : ((s.run pre).after a).scratch.answeredLeg = some winner)
    (hk : ((s.run pre).after a).scratch.knowsLeg leg = true)
    (hbefore : leg ∉ s.hangUps pre) (hp : ((s.run pre).after a).scratch.pendingLegs = [])
    (hreg : leg ∈ registrations (pre ++ [a]))
    (hat : ((s.run pre).effect a).hangUps.count leg = if leg ∈ (s.run pre).scratch.endedLegs then 0 else 1) :
    (s.EndedFirst (pre ++ a :: post) leg → (s.hangUps (pre ++ a :: post)).count leg = 0) ∧
      (¬ s.EndedFirst (pre ++ a :: post) leg → (s.hangUps (pre ++ a :: post)).count leg = 1) := by
  rw [endedFirst_iff s pre a post leg winner hacts hopen hw hk]
  have hlater : leg ∉ ((s.run pre).after a).hangUps post := fun hm => by
    have hpost := hangUps_of_silent post _ (fun b hb => hacts b (by simp [hb])) hw hp leg hm
    rw [show pre ++ a :: post = (pre ++ [a]) ++ post by simp, registrations, List.flatMap_append, List.nodup_append] at hn
    exact hn.2.2 leg hreg leg hpost rfl
  have hcount : (s.hangUps (pre ++ a :: post)).count leg = ((s.run pre).effect a).hangUps.count leg := by
    rw [show a :: post = [a] ++ post from rfl, hangUps_append, hangUps_append, hangUps_singleton, List.count_append,
      List.count_append, List.count_eq_zero.2 hbefore, Nat.zero_add,
      show (s.run pre).run [a] = (s.run pre).after a from rfl, List.count_eq_zero.2 hlater, Nat.add_zero]
  rw [hcount, hat]
  exact ⟨fun he => if_pos he, fun he => if_neg he⟩

section
variable {s : Segment} {pre : List Act} {a : Act} {post : List Act} {leg winner : String}

/-- **A leg that was registered before the answer** loses with the answer. -/
theorem asked_once_of_known (h : s.Ledger [] []) (hacts : ∀ b ∈ pre ++ a :: post, b.isStart = false)
    (hn : (registrations (pre ++ a :: post)).Nodup) (hf : (s.run pre).scratch.failureHandled = false)
    (hs : (s.run pre).scratch.answeredLeg = none) (hw : ((s.run pre).after a).scratch.answeredLeg = some winner)
    (hleg : leg ≠ winner) (hk : (s.run pre).scratch.knowsLeg leg = true) :
    (s.EndedFirst (pre ++ a :: post) leg → (s.hangUps (pre ++ a :: post)).count leg = 0) ∧
      (¬ s.EndedFirst (pre ++ a :: post) leg → (s.hangUps (pre ++ a :: post)).count leg = 1) := by
  have ha : a.isStart = false := hacts a (by simp)
  have hledger := ledger_of_run h pre fun b hb => hacts b (List.mem_append_left _ hb)
  have hnpre : (registrations pre).Nodup := by
    rw [registrations, List.flatMap_append, List.nodup_append] at hn
    exact hn.1
  obtain ⟨hhang, hsilent⟩ := hangUps_of_answer ha hs hw
  obtain ⟨hbefore, hrings⟩ := hledger.waiting hnpre hf hs leg hk
  refine asked_once_of_lost hacts hn (.inl hs) hw ((knowsLeg_of_answer ha hs hw leg).trans hk) hbefore hsilent ?_ ?_
  · rw [registrations, List.flatMap_append]
    exact List.mem_append_left _ (hledger.listed leg hk)
  · have hcovered := hledger.covered leg
    have hone := List.nodup_iff_count.1 hnpre leg
    rw [hhang, List.count_filter (by simpa using hleg)]
    by_cases he : leg ∈ (s.run pre).scratch.endedLegs
    · rw [if_pos he, List.count_eq_zero]
      exact fun hm => hrings.1 hm he
    · have hpos := List.count_pos_iff.2 (hrings.2 he)
      rw [if_neg he]
      omega

/-- **A leg that is registered behind the answer** loses with its registration. -/
theorem asked_once_of_registered {target : DialTarget} (h : s.Ledger [] [])
    (hacts : ∀ b ∈ pre ++ .register (s.run pre).scratch.attemptSeq leg target :: post, b.isStart = false)
    (hn : (registrations (pre ++ .register (s.run pre).scratch.attemptSeq leg target :: post)).Nodup)
    (hw : (s.run pre).scratch.answeredLeg = some winner) (hp : (s.run pre).scratch.pendingLegs = [])
    (hleg : leg ≠ winner) (hk : (s.run pre).scratch.knowsLeg leg = false) :
    let acts := pre ++ .register (s.run pre).scratch.attemptSeq leg target :: post
    (s.EndedFirst acts leg → (s.hangUps acts).count leg = 0) ∧
      (¬ s.EndedFirst acts leg → (s.hangUps acts).count leg = 1) := by
  have hledger := ledger_of_run h pre fun b hb => hacts b (List.mem_append_left _ hb)
  have hbefore : leg ∉ registrations pre := fun hm => by
    rw [registrations, List.flatMap_append, List.flatMap_cons, List.nodup_append] at hn
    exact hn.2.2 leg hm leg (List.mem_append_left _ List.mem_cons_self) rfl
  refine asked_once_of_lost hacts hn (.inr hk) (after_answeredLeg _ _ rfl hw)
    ((after_knowsLeg _ _ rfl leg).2 (.inr ⟨target, rfl⟩)) (hledger.covered.not_mem hbefore).1
    (after_silent _ rfl hw hp).1 ?_ ?_
  · rw [registrations, List.flatMap_append]
    exact List.mem_append_right _ List.mem_cons_self
  · rw [hangUps_of_register_answered hw]
    by_cases he : leg ∈ (s.run pre).scratch.endedLegs
    · rw [if_pos (.inr he), if_pos he]
      rfl
    · rw [if_neg (fun h => h.elim hleg he), if_neg he]
      simp

/-- **Every registered leg but the winner** loses once, with the answer or with its registration. -/
theorem asked_once_of_answered (h : s.Ledger [] []) (hacts : ∀ b ∈ pre ++ a :: post, b.isStart = false)
    (hn : (registrations (pre ++ a :: post)).Nodup) (hf : (s.run pre).scratch.failureHandled = false)
    (hs : (s.run pre).scratch.answeredLeg = none) (hw : ((s.run pre).after a).scratch.answeredLeg = some winner)
    (hleg : leg ≠ winner) (hk : (s.run (pre ++ a :: post)).scratch.knowsLeg leg = true) :
    (s.EndedFirst (pre ++ a :: post) leg → (s.hangUps (pre ++ a :: post)).count leg = 0) ∧
      (¬ s.EndedFirst (pre ++ a :: post) leg → (s.hangUps (pre ++ a :: post)).count leg = 1) := by
  have ha : a.isStart = false := hacts a (by simp)
  have hpost : ∀ b ∈ post, b.isStart = false := fun b hb => hacts b (by simp [hb])
  cases hkpre : (s.run pre).scratch.knowsLeg leg with
  | true => exact asked_once_of_known h hacts hn hf hs hw hleg hkpre
  | false =>
    rw [run_append, run_cons] at hk
    obtain ⟨mid, target, rest, rfl, hmid⟩ :=
      exists_register_of_knowsLeg leg post _ hpost ((knowsLeg_of_answer ha hs hw leg).trans hkpre) hk
    have hmid' : ∀ b ∈ mid, b.isStart = false := fun b hb => hpost b (by simp [hb])
    obtain ⟨hwmid, hpmid⟩ := run_silent _ mid hmid' hw (hangUps_of_answer ha hs hw).2
    have hsplit : ∀ b, pre ++ a :: (mid ++ b :: rest) = (pre ++ a :: mid) ++ b :: rest := fun b => by simp
    rw [hsplit] at hacts hn ⊢
    rw [← run_cons, ← run_append] at hwmid hpmid hmid hacts hn ⊢
    exact asked_once_of_registered h hacts hn hwmid hpmid hleg hmid

end

/-- **The first answer wins.**  Of every run of an attempt in which no leg is registered twice: the leg that answered stays
the one; its answer hangs up exactly the other legs that ring and leaves none ringing; a leg registered behind it is hung
up unless it is the winner or has ended; no leg is hung up twice; and where the attempt was not settled when it was
answered, every registered leg but the winner is hung up once, or not at all because its end came first. -/
theorem first_answer_wins (s : Segment) (resume : Resume) (targets : List DialTarget) (callerId : Option String)
    (timeout : Int) (record : Bool) (acts : List Act) (hacts : ∀ a ∈ acts, a.isStart = false)
    (hn : (registrations acts).Nodup) :
    let s₀ := s.after (.start resume targets callerId timeout record)
    (∀ pre post winner, acts = pre ++ post → (s₀.run pre).scratch.answeredLeg = some winner →
      (s₀.run acts).scratch.answeredLeg = some winner) ∧
    (∀ pre a post winner, acts = pre ++ a :: post → (s₀.run pre).scratch.answeredLeg = none →
      ((s₀.run pre).after a).scratch.answeredLeg = some winner →
        ((s₀.run pre).effect a).hangUps = (s₀.run pre).scratch.pendingLegs.filter (· ≠ winner) ∧
          ((s₀.run pre).after a).scratch.pendingLegs = []) ∧
    (∀ pre post winner, acts = pre ++ post → (s₀.run pre).scratch.answeredLeg = some winner → ∀ leg target,
      ((s₀.run pre).effect (.register (s₀.run pre).scratch.attemptSeq leg target)).hangUps =
        if leg = winner ∨ leg ∈ (s₀.run pre).scratch.endedLegs then [] else [leg]) ∧
    (∀ leg, (s₀.hangUps acts).count leg ≤ 1) ∧
    (∀ pre a post winner, acts = pre ++ a :: post → (s₀.run pre).scratch.failureHandled = false →
      (s₀.run pre).scratch.answeredLeg = none → ((s₀.run pre).after a).scratch.answeredLeg = some winner →
        ∀ leg, leg ≠ winner → (s₀.run acts).scratch.knowsLeg leg = true →
          (s₀.EndedFirst acts leg → (s₀.hangUps acts).count leg = 0) ∧
            (¬ s₀.EndedFirst acts leg → (s₀.hangUps acts).count leg = 1)) := by
  intro s₀
  have hstart : s₀.Ledger [] [] := ledger_of_start s resume targets callerId timeout record
  refine ⟨?_, ?_, ?_, ?_, ?_⟩
  · rintro pre post winner rfl hw
    rw [run_append]
    exact run_answeredLeg _ post (fun b hb => hacts b (List.mem_append_right _ hb)) hw
  · rintro pre a post winner rfl hs hw
    exact hangUps_of_answer (hacts a (by simp)) hs hw
  · rintro pre post winner rfl hw leg target
    exact hangUps_of_register_answered hw leg target
  · intro leg
    have hcovered := (ledger_of_run hstart acts hacts).covered leg
    have hone := List.nodup_iff_count.1 hn leg
    omega
  · rintro pre a post winner rfl hf hs hw leg hleg hk
    exact asked_once_of_answered hstart hacts hn hf hs hw hleg hk

theorem first_answer_wins_over_two_legs :
    let target : DialTarget := ⟨.phone, "+15550100", "+15550100", none⟩
    let s₀ := (Segment.opened "T" "CA1" "CA1" 0 "inbound" .ringing).after
      (.start ⟨none, some "line", some 1, none, 0, some "dial", 1⟩ [target, target] none 30 false)
    let pre : List Act := [.callerJoins (some 1) none, .register 1 "ringing" target, .legEnds "ended" (some 1) 3]
    let post : List Act := [.register 1 "winner" target, .register 1 "ended" target, .register 1 "late" target]
    let acts := pre ++ .agentJoins "winner" (some 1) 4 :: post
    (∀ a ∈ acts, a.isStart = false) ∧ (registrations acts).Nodup ∧
      (s₀.run acts).scratch.answeredLeg = some "winner" ∧ s₀.hangUps acts = ["ringing", "late"] ∧
      (s₀.hangUps acts).count "ringing" = 1 ∧ (s₀.hangUps acts).count "ended" = 0 := by
  intro target s₀ pre post acts
  have hacts : ∀ a ∈ acts, a.isStart = false := by decide
  have hn : (registrations acts).Nodup := by decide
  obtain ⟨-, -, -, -, hasked⟩ := first_answer_wins (Segment.opened "T" "CA1" "CA1" 0 "inbound" .ringing)
    ⟨none, some "line", some 1, none, 0, some "dial", 1⟩ [target, target] none 30 false acts hacts hn
  have hlost := hasked pre _ post "winner" rfl (by decide) (by decide) (by decide)
  have hended : s₀.EndedFirst acts "ended" :=
    (endedFirst_iff s₀ (pre ++ [.agentJoins "winner" (some 1) 4, .register 1 "winner" target])
      (.register 1 "ended" target) [.register 1 "late" target] "ended" "winner" hacts (.inr (by decide)) (by decide)
      (by decide)).2 (by decide)
  have hrang : ¬ s₀.EndedFirst acts "ringing" := fun h =>
    absurd ((endedFirst_iff s₀ pre (.agentJoins "winner" (some 1) 4) post "ringing" "winner" hacts (.inl (by decide))
      (by decide) (by decide)).1 h) (by decide)
  exact ⟨hacts, hn, by decide, by decide, (hlost "ringing" (by decide) (by decide)).2 hrang,
    (hlost "ended" (by decide) (by decide)).1 hended⟩

end Switchboard.Segment
