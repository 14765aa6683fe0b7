import Mathlib.Data.List.Basic
import Mathlib.Tactic.Tauto
import Switchboard.Flow.Definition
/-!
# The tree of a flow

A list of steps is a tree: each step owns further lists.  The walk, the search for a misplaced end and every other
recursion over flows go through those lists in the same way, so each is opened here into one law about a step, its lists
and its successors, and `Steps.tree_induction` is the induction that fits all of them.  From these laws a flow is fit to be
saved exactly where every step has a known type, ends stand last in their lists and no id comes twice.
-/
namespace Switchboard.Flow

section Induction

variable {P : Steps → Prop} (nil : P [])
  (cons : ∀ (s : Step) (rest : Steps), (∀ c ∈ s.children, P c.steps) → P rest → P (s :: rest))

include nil cons

set_option linter.unusedSectionVars false

mutual

/-- **Induction over a flow**: what holds of the empty list, and of a list whose first step's lists and whose rest have
it, holds of every list. -/
theorem Steps.tree_induction : ∀ steps : Steps, P steps
  | [] => nil
  | ⟨id, label, body⟩ :: rest => cons ⟨id, label, body⟩ rest (children_induction body) (Steps.tree_induction rest)

theorem children_induction : ∀ b : Body, ∀ c ∈ b.children, P c.steps
  | .menu _ options invalid => by
    intro c hc
    rcases List.mem_append.mp hc with hc | hc
    · exact optionChildren_induction options 0 c hc
    · rw [List.mem_singleton.mp hc]
      exact Steps.tree_induction invalid
  | .schedule _ branches fallback => by
    intro c hc
    rcases List.mem_append.mp hc with hc | hc
    · exact branchChildren_induction branches 0 c hc
    · rw [List.mem_singleton.mp hc]
      exact Steps.tree_induction fallback
  | .greeting _ | .dial _ | .simulcall _ | .roundRobin _ | .keypadEntry _ | .tag _ | .voicemail _ | .hangup _ | .bare _
  | .unknown _ _ => fun _ hc => nomatch hc

theorem optionChildren_induction : ∀ (options : List MenuOption) (i : Nat), ∀ c ∈ optionChildren i options, P c.steps
  | [], _ => fun _ hc => nomatch hc
  | ⟨_, _, steps⟩ :: rest, i => by
    intro c hc
    rcases List.mem_cons.mp hc with rfl | hc
    · exact Steps.tree_induction steps
    · exact optionChildren_induction rest (i + 1) c hc

theorem branchChildren_induction : ∀ (branches : List Branch) (i : Nat), ∀ c ∈ branchChildren i branches, P c.steps
  | [], _ => fun _ hc => nomatch hc
  | ⟨_, _, _, steps⟩ :: rest, i => by
    intro c hc
    rcases List.mem_cons.mp hc with rfl | hc
    · exact Steps.tree_induction steps
    · exact branchChildren_induction rest (i + 1) c hc

end

end Induction

/-! ## One law for each recursion -/

theorem forall_optionChildren {P : Steps → Prop} {os : List MenuOption} (i : Nat) :
    (∀ c ∈ optionChildren i os, P c.steps) ↔ ∀ o ∈ os, P o.steps := by
  induction os generalizing i with
  | nil => simp [optionChildren]
  | cons o rest ih => rw [optionChildren, List.forall_mem_cons, List.forall_mem_cons, ih]

theorem forall_branchChildren {P : Steps → Prop} {bs : List Branch} (i : Nat) :
    (∀ c ∈ branchChildren i bs, P c.steps) ↔ ∀ b ∈ bs, P b.steps := by
  induction bs generalizing i with
  | nil => simp [branchChildren]
  | cons b rest ih => rw [branchChildren, List.forall_mem_cons, List.forall_mem_cons, ih]

/-- The lists of a menu are those of its options and the one for invalid input. -/
theorem forall_menu_children (P : Steps → Prop) (p : MenuPrompt) (os : List MenuOption) (invalid : Steps) :
    (∀ c ∈ (Body.menu p os invalid).children, P c.steps) ↔ (∀ o ∈ os, P o.steps) ∧ P invalid := by
  rw [Body.children, List.forall_mem_append, forall_optionChildren, List.forall_mem_singleton]

/-- The lists of a schedule are those of its branches and the fallback. -/
theorem forall_schedule_children (P : Steps → Prop) (z : String) (bs : List Branch) (fallback : Steps) :
    (∀ c ∈ (Body.schedule z bs fallback).children, P c.steps) ↔ (∀ b ∈ bs, P b.steps) ∧ P fallback := by
  rw [Body.children, List.forall_mem_append, forall_branchChildren, List.forall_mem_singleton]

theorem walkOptions_eq (path : String) (index : Nat) (os : List MenuOption) (i : Nat) :
    walkOptions path index os =
      (optionChildren i os).flatMap fun c => walkFrom (childPath path index c.name) 0 c.steps := by
  induction os generalizing i with
  | nil => rfl
  | cons o rest ih =>
    obtain ⟨digit, label, steps⟩ := o
    rw [walkOptions, optionChildren, List.flatMap_cons, ih]

theorem walkBranches_eq (path : String) (index : Nat) (bs : List Branch) (i : Nat) :
    walkBranches path index bs =
      (branchChildren i bs).flatMap fun c => walkFrom (childPath path index c.name) 0 c.steps := by
  induction bs generalizing i with
  | nil => rfl
  | cons b rest ih =>
    obtain ⟨id, name, slots, steps⟩ := b
    rw [walkBranches, branchChildren, List.flatMap_cons, ih]

theorem walkBody_eq (path : String) (index : Nat) (b : Body) :
    walkBody path index b = b.children.flatMap fun c => walkFrom (childPath path index c.name) 0 c.steps := by
  cases b with
  | menu p os invalid => simp [walkBody, Body.children, ← walkOptions_eq]
  | schedule z bs fallback => simp [walkBody, Body.children, ← walkBranches_eq]
  | _ => rfl

/-- **The walk**: a step, what is below it, what comes after it. -/
theorem walkFrom_cons (path : String) (index : Nat) (s : Step) (rest : Steps) :
    walkFrom path index (s :: rest) =
      ⟨path, index, s⟩ :: ((s.children.flatMap fun c => walkFrom (childPath path index c.name) 0 c.steps) ++
        walkFrom path (index + 1) rest) := by
  obtain ⟨id, label, body⟩ := s
  rw [walkFrom, walkBody_eq]
  rfl

theorem terminalOptions?_eq (path : String) (index : Nat) (os : List MenuOption) (i : Nat) :
    terminalOptions? path index os =
      (optionChildren i os).findSome? fun c => terminalFrom? (childPath path index c.name) 0 c.steps := by
  induction os generalizing i with
  | nil => rfl
  | cons o rest ih =>
    obtain ⟨digit, label, steps⟩ := o
    rw [terminalOptions?, optionChildren, List.findSome?_cons, ih (i + 1)]
    split <;> simp_all

theorem terminalBranches?_eq (path : String) (index : Nat) (bs : List Branch) (i : Nat) :
    terminalBranches? path index bs =
      (branchChildren i bs).findSome? fun c => terminalFrom? (childPath path index c.name) 0 c.steps := by
  induction bs generalizing i with
  | nil => rfl
  | cons b rest ih =>
    obtain ⟨id, name, slots, steps⟩ := b
    rw [terminalBranches?, branchChildren, List.findSome?_cons, ih (i + 1)]
    split <;> simp_all

theorem terminalBody?_eq (path : String) (index : Nat) (b : Body) :
    terminalBody? path index b =
      b.children.findSome? fun c => terminalFrom? (childPath path index c.name) 0 c.steps := by
  cases b with
  | menu p os invalid =>
    rw [terminalBody?, Body.children, List.findSome?_append, ← terminalOptions?_eq]
    cases terminalOptions? path index os <;> simp
  | schedule z bs fallback =>
    rw [terminalBody?, Body.children, List.findSome?_append, ← terminalBranches?_eq]
    cases terminalBranches? path index bs <;> simp
  | _ => rfl

theorem terminalBody?_eq_none {path : String} {index : Nat} {b : Body} :
    terminalBody? path index b = none ↔
      ∀ c ∈ b.children, terminalFrom? (childPath path index c.name) 0 c.steps = none := by
  rw [terminalBody?_eq, List.findSome?_eq_none_iff]

theorem terminalFrom?_cons_eq_none {path : String} {index : Nat} {s : Step} {rest : Steps} :
    terminalFrom? path index (s :: rest) = none ↔
      (s.isTerminal = true → rest = []) ∧
        (∀ c ∈ s.children, terminalFrom? (childPath path index c.name) 0 c.steps = none) ∧
        terminalFrom? path (index + 1) rest = none := by
  obtain ⟨id, label, body⟩ := s
  rw [terminalFrom?, Step.children, ← terminalBody?_eq_none]
  split
  · rename_i h
    simp only [Bool.and_eq_true, Bool.not_eq_true', List.isEmpty_eq_false_iff] at h
    simp [h]
  · rename_i h
    have h' : (Step.mk id label body).isTerminal = true → rest = [] := by simpa using h
    split <;> simp_all

/-! ## Every step of a flow -/

/-- Every step of a flow, depth first. -/
def flat (steps : Steps) : List Step := (walk steps).map Visit.step

theorem map_step_walkFrom (steps : Steps) : ∀ (path : String) (index : Nat),
    (walkFrom path index steps).map Visit.step = flat steps := by
  suffices h : ∀ p q i j, (walkFrom p i steps).map Visit.step = (walkFrom q j steps).map Visit.step from
    fun p i => h p "root" i 0
  induction steps using Steps.tree_induction with
  | nil => intros; rfl
  | cons s rest ihs ihr =>
    intro p q i j
    rw [walkFrom_cons, walkFrom_cons, List.map_cons, List.map_cons, List.map_append, List.map_append,
      ihr p q (i + 1) (j + 1), List.map_flatMap, List.map_flatMap]
    congr 2
    exact List.flatMap_congr fun c hc => ihs c hc _ _ _ _

@[simp] theorem flat_nil : flat [] = [] := rfl

/-- **Every step**: the first one, those below it, those after it. -/
theorem flat_cons (s : Step) (rest : Steps) :
    flat (s :: rest) = s :: ((s.children.flatMap fun c => flat c.steps) ++ flat rest) := by
  rw [flat, walk, walkFrom_cons, List.map_cons, List.map_append, map_step_walkFrom, List.map_flatMap]
  congr 2
  exact List.flatMap_congr fun c _ => map_step_walkFrom _ _ _

theorem mem_flat_cons {s t : Step} {rest : Steps} :
    t ∈ flat (s :: rest) ↔ t = s ∨ (∃ c ∈ s.children, t ∈ flat c.steps) ∨ t ∈ flat rest := by
  rw [flat_cons, List.mem_cons, List.mem_append, List.mem_flatMap]

theorem forall_flat_cons {P : Step → Prop} {s : Step} {rest : Steps} :
    (∀ t ∈ flat (s :: rest), P t) ↔ P s ∧ (∀ c ∈ s.children, ∀ t ∈ flat c.steps, P t) ∧ ∀ t ∈ flat rest, P t := by
  simp only [mem_flat_cons]
  constructor
  · intro h
    exact ⟨h s (.inl rfl), fun c hc t ht => h t (.inr (.inl ⟨c, hc, ht⟩)), fun t ht => h t (.inr (.inr ht))⟩
  · rintro ⟨hs, hc, hr⟩ t (rfl | ⟨c, hcm, ht⟩ | ht)
    exacts [hs, hc c hcm t ht, hr t ht]

theorem exists_flat_cons {P : Step → Prop} {s : Step} {rest : Steps} :
    (∃ t ∈ flat (s :: rest), P t) ↔ P s ∨ (∃ c ∈ s.children, ∃ t ∈ flat c.steps, P t) ∨ ∃ t ∈ flat rest, P t := by
  simp only [mem_flat_cons]
  constructor
  · rintro ⟨t, rfl | ⟨c, hc, ht⟩ | ht, hp⟩
    · exact .inl hp
    · exact .inr (.inl ⟨c, hc, t, ht, hp⟩)
    · exact .inr (.inr ⟨t, ht, hp⟩)
  · rintro (hp | ⟨c, hc, t, ht, hp⟩ | ⟨t, ht, hp⟩)
    · exact ⟨s, .inl rfl, hp⟩
    · exact ⟨t, .inr (.inl ⟨c, hc, ht⟩), hp⟩
    · exact ⟨t, .inr (.inr ht), hp⟩

/-! ## What a flow is refused for -/

theorem unknownType?_walk_eq_none {steps : Steps} :
    unknownType? (walk steps) = none ↔ ∀ s ∈ flat steps, s.isKnown = true := by
  simp [unknownType?, flat]

theorem duplicateFrom?_eq_none {visits : List Visit} {seen : List (String × String)} :
    duplicateFrom? seen visits = none ↔
      (visits.map fun v => v.step.id).Nodup ∧ ∀ v ∈ visits, v.step.id ∉ seen.map Prod.fst := by
  induction visits generalizing seen with
  | nil => simp [duplicateFrom?]
  | cons v rest ih =>
    rw [duplicateFrom?, List.map_cons, List.nodup_cons, List.forall_mem_cons]
    split
    · rename_i s hs
      have hmem : v.step.id ∈ seen.map Prod.fst :=
        List.mem_map.mpr ⟨s, List.mem_of_find?_eq_some hs, by simpa using List.find?_some hs⟩
      simp [hmem]
    · rename_i hs
      have hnot : v.step.id ∉ seen.map Prod.fst := by
        intro hin
        obtain ⟨s, hmem, hid⟩ := List.mem_map.mp hin
        have := List.find?_eq_none.mp hs s hmem
        simp [hid] at this
      rw [ih]
      constructor
      · rintro ⟨hnd, hrest⟩
        refine ⟨⟨fun hv => ?_, hnd⟩, hnot, fun w hw hin => hrest w hw ?_⟩
        · obtain ⟨w, hw, hwv⟩ := List.mem_map.mp hv
          exact hrest w hw (by simp [hwv])
        · rw [List.map_append]; exact List.mem_append_left _ hin
      · rintro ⟨⟨hv, hnd⟩, -, hrest⟩
        refine ⟨hnd, fun w hw hin => ?_⟩
        rw [List.map_append, List.mem_append] at hin
        rcases hin with hin | hin
        · exact hrest w hw hin
        · exact hv (List.mem_map.mpr ⟨w, hw, by simpa using hin⟩)

/-- Whether only the last step of a list ends the call. -/
def EndsLast (steps : Steps) : Prop := ∀ s ∈ steps.dropLast, s.isTerminal = false

theorem endsLast_cons {s : Step} {rest : Steps} :
    EndsLast (s :: rest) ↔ (s.isTerminal = true → rest = []) ∧ EndsLast rest := by
  unfold EndsLast
  cases rest with
  | nil => simp
  | cons t rest => simp [List.dropLast]

theorem terminalFrom?_eq_none {steps : Steps} : ∀ (path : String) (index : Nat),
    terminalFrom? path index steps = none ↔
      EndsLast steps ∧ ∀ s ∈ flat steps, ∀ c ∈ s.children, EndsLast c.steps := by
  induction steps using Steps.tree_induction with
  | nil => intro p i; simp [terminalFrom?, EndsLast]
  | cons s rest ihs ihr =>
    intro p i
    rw [terminalFrom?_cons_eq_none, endsLast_cons, forall_flat_cons, ihr]
    have hchildren : (∀ c ∈ s.children, terminalFrom? (childPath p i c.name) 0 c.steps = none) ↔
        (∀ c ∈ s.children, EndsLast c.steps) ∧
          ∀ c ∈ s.children, ∀ t ∈ flat c.steps, ∀ d ∈ t.children, EndsLast d.steps := by
      rw [← forall₂_and]
      exact forall₂_congr fun c hc => ihs c hc _ _
    rw [hchildren]
    tauto

/-- **Which flows are fit to be saved**: every step has a known type, in every list only the last step may end the call,
and no two steps share an id. -/
theorem validate_eq_ok {steps : Steps} :
    validate steps = .ok () ↔
      (∀ s ∈ flat steps, s.isKnown = true) ∧
        (EndsLast steps ∧ ∀ s ∈ flat steps, ∀ c ∈ s.children, EndsLast c.steps) ∧
        ((flat steps).map Step.id).Nodup := by
  have hd : validate steps = .ok () ↔ defect? steps = none := by
    unfold validate
    cases defect? steps <;> simp
  have hids : duplicateFrom? [] (walk steps) = none ↔ ((flat steps).map Step.id).Nodup := by
    rw [duplicateFrom?_eq_none, flat, List.map_map]
    simp [Function.comp_def]
  rw [hd, defect?, ← unknownType?_walk_eq_none, ← hids, ← terminalFrom?_eq_none "root" 0]
  cases unknownType? (walk steps) <;> cases terminalFrom? "root" 0 steps <;> simp

end Switchboard.Flow
