import Switchboard.Proofs.Flow.Tree
/-!
# Changing the bodies of a flow

Saving and loading a flow changes what single steps say and leaves the tree as it is.  A change of bodies is carried through
a whole flow by `mapSteps`; where it keeps the type of each body and its lists but for empty ones, the flow keeps its steps
in their order, and it is fit to be saved where it was before.
-/
namespace Switchboard.Flow

mutual

/-- A step with its body changed, those below it first. -/
def Step.mapBody (f : Body → Body) : Step → Step
  | ⟨id, label, body⟩ => ⟨id, label, f (body.mapNested f)⟩

def Body.mapNested (f : Body → Body) : Body → Body
  | .menu prompt options invalid => .menu prompt (mapOptions f options) (mapSteps f invalid)
  | .schedule timezone branches fallback => .schedule timezone (mapBranches f branches) (mapSteps f fallback)
  | .greeting m => .greeting m
  | .dial d => .dial d
  | .simulcall d => .simulcall d
  | .roundRobin d => .roundRobin d
  | .keypadEntry k => .keypadEntry k
  | .tag t => .tag t
  | .voicemail v => .voicemail v
  | .hangup m => .hangup m
  | .bare t => .bare t
  | .unknown t c => .unknown t c

def mapOptions (f : Body → Body) : List MenuOption → List MenuOption
  | [] => []
  | ⟨digit, label, steps⟩ :: rest => ⟨digit, label, mapSteps f steps⟩ :: mapOptions f rest

def mapBranches (f : Body → Body) : List Branch → List Branch
  | [] => []
  | ⟨id, name, slots, steps⟩ :: rest => ⟨id, name, slots, mapSteps f steps⟩ :: mapBranches f rest

/-- A flow with all its bodies changed. -/
def mapSteps (f : Body → Body) : List Step → List Step
  | [] => []
  | s :: rest => s.mapBody f :: mapSteps f rest

end

variable {f g : Body → Body}

theorem mapSteps_eq (steps : Steps) : mapSteps f steps = steps.map (Step.mapBody f) := by
  induction steps with
  | nil => rfl
  | cons s rest ih => rw [mapSteps, List.map_cons, ih]

theorem mapOptions_eq (os : List MenuOption) :
    mapOptions f os = os.map fun o => { o with steps := mapSteps f o.steps } := by
  induction os with
  | nil => rfl
  | cons o rest ih => obtain ⟨digit, label, steps⟩ := o; rw [mapOptions, List.map_cons, ih]

theorem mapBranches_eq (bs : List Branch) :
    mapBranches f bs = bs.map fun b => { b with steps := mapSteps f b.steps } := by
  induction bs with
  | nil => rfl
  | cons b rest ih => obtain ⟨id, name, slots, steps⟩ := b; rw [mapBranches, List.map_cons, ih]

theorem optionChildren_map (os : List MenuOption) (i : Nat) :
    optionChildren i (mapOptions f os) = (optionChildren i os).map fun c => { c with steps := mapSteps f c.steps } := by
  induction os generalizing i with
  | nil => rfl
  | cons o rest ih =>
    obtain ⟨digit, label, steps⟩ := o
    rw [mapOptions, optionChildren, optionChildren, List.map_cons, ih]

theorem branchChildren_map (bs : List Branch) (i : Nat) :
    branchChildren i (mapBranches f bs) = (branchChildren i bs).map fun c => { c with steps := mapSteps f c.steps } := by
  induction bs generalizing i with
  | nil => rfl
  | cons b rest ih =>
    obtain ⟨id, name, slots, steps⟩ := b
    rw [mapBranches, branchChildren, branchChildren, List.map_cons, ih]

theorem children_mapNested (b : Body) :
    (b.mapNested f).children = b.children.map fun c => { c with steps := mapSteps f c.steps } := by
  cases b with
  | menu p os invalid => rw [Body.mapNested, Body.children, Body.children, List.map_append, optionChildren_map]; rfl
  | schedule z bs fb => rw [Body.mapNested, Body.children, Body.children, List.map_append, branchChildren_map]; rfl
  | _ => rfl

theorem type?_mapNested (b : Body) : (b.mapNested f).type? = b.type? := by
  cases b <;> rfl

/-! ## Changes that keep the tree -/

/-- The lists of a body that hold a step. -/
def Body.lists (b : Body) : List Steps := (b.children.map Child.steps).filter fun l => !l.isEmpty

/-- A change keeps the types of bodies and the lists that hold a step. -/
structure KeepsTree (f : Body → Body) : Prop where
  type? : ∀ b, (f b).type? = b.type?
  lists : ∀ b, (f b).lists = b.lists

theorem Body.mem_lists {b : Body} {l : Steps} : l ∈ b.lists ↔ (∃ c ∈ b.children, c.steps = l) ∧ l ≠ [] := by
  simp [Body.lists]

theorem flatMap_children (b : Body) : (b.children.flatMap fun c => flat c.steps) = b.lists.flatMap flat := by
  unfold Body.lists
  induction b.children with
  | nil => rfl
  | cons c rest ih =>
    rw [List.flatMap_cons, ih, List.map_cons]
    cases hc : c.steps with
    | nil => rw [List.filter_cons_of_neg (by simp)]; rfl
    | cons s more => rw [List.filter_cons_of_pos (by simp), List.flatMap_cons]

theorem isEmpty_mapSteps (l : Steps) : (mapSteps f l).isEmpty = l.isEmpty := by
  cases l <;> rfl

theorem lists_mapBody (hf : KeepsTree f) (s : Step) :
    (s.mapBody f).body.lists = s.body.lists.map (mapSteps f) := by
  obtain ⟨id, label, body⟩ := s
  have hmap : (body.mapNested f).children.map Child.steps = (body.children.map Child.steps).map (mapSteps f) := by
    rw [children_mapNested, List.map_map, List.map_map]
    rfl
  rw [Step.mapBody, hf.lists, Body.lists, Body.lists, hmap, List.filter_map]
  simp only [Function.comp_def, isEmpty_mapSteps]

/-- **A change that keeps the tree keeps its steps**, each of them changed. -/
theorem flat_mapSteps (hf : KeepsTree f) (steps : Steps) : flat (mapSteps f steps) = (flat steps).map (Step.mapBody f) := by
  induction steps using Steps.tree_induction with
  | nil => rfl
  | cons s rest ihs ihr =>
    rw [mapSteps, flat_cons, flat_cons, List.map_cons, List.map_append, ihr]
    congr 2
    have hl := lists_mapBody hf s
    rw [Step.children, Step.children, flatMap_children, flatMap_children, hl, List.flatMap_map, List.map_flatMap]
    refine List.flatMap_congr fun l hmem => ?_
    obtain ⟨⟨c, hc, rfl⟩, -⟩ := Body.mem_lists.mp hmem
    exact ihs c hc

theorem id_mapBody (s : Step) : (s.mapBody f).id = s.id := by
  obtain ⟨id, label, body⟩ := s; rfl

theorem type?_mapBody (hf : KeepsTree f) (s : Step) : (s.mapBody f).body.type? = s.body.type? := by
  obtain ⟨id, label, body⟩ := s
  rw [Step.mapBody, hf.type?, type?_mapNested]

theorem endsLast_mapSteps (hf : KeepsTree f) (steps : Steps) : EndsLast (mapSteps f steps) ↔ EndsLast steps := by
  rw [EndsLast, EndsLast, mapSteps_eq, ← List.map_dropLast, List.forall_mem_map]
  simp only [Step.isTerminal, type?_mapBody hf]

theorem forall_endsLast_children (b : Body) : (∀ c ∈ b.children, EndsLast c.steps) ↔ ∀ l ∈ b.lists, EndsLast l := by
  constructor
  · intro h l hl
    obtain ⟨⟨c, hc, rfl⟩, -⟩ := Body.mem_lists.mp hl
    exact h c hc
  · intro h c hc
    by_cases hnil : c.steps = []
    · rw [hnil]; intro s hs; cases hs
    · exact h _ (Body.mem_lists.mpr ⟨⟨c, hc, rfl⟩, hnil⟩)

/-- **A change that keeps the tree changes nothing about whether a flow is fit to be saved.** -/
theorem validate_mapSteps (hf : KeepsTree f) (steps : Steps) :
    validate (mapSteps f steps) = .ok () ↔ validate steps = .ok () := by
  have hids : ((flat (mapSteps f steps)).map Step.id) = (flat steps).map Step.id := by
    rw [flat_mapSteps hf, List.map_map]
    exact List.map_congr_left fun s _ => id_mapBody s
  have hknown : (∀ s ∈ flat (mapSteps f steps), s.isKnown = true) ↔ ∀ s ∈ flat steps, s.isKnown = true := by
    rw [flat_mapSteps hf, List.forall_mem_map]
    simp only [Step.isKnown, type?_mapBody hf]
  have hlists : (∀ s ∈ flat (mapSteps f steps), ∀ c ∈ s.children, EndsLast c.steps) ↔
      ∀ s ∈ flat steps, ∀ c ∈ s.children, EndsLast c.steps := by
    rw [flat_mapSteps hf, List.forall_mem_map]
    refine forall₂_congr fun s _ => ?_
    rw [Step.children, Step.children, forall_endsLast_children, forall_endsLast_children, lists_mapBody hf,
      List.forall_mem_map]
    simp only [endsLast_mapSteps hf]
  rw [validate_eq_ok, validate_eq_ok, hids, hknown, hlists, endsLast_mapSteps hf]

/-! ## One change after another -/

/-- **Two changes that commute on each body** commute on a flow. -/
theorem mapSteps_comm
    (h : ∀ b : Body, (∀ c ∈ b.children, mapSteps f (mapSteps g c.steps) = mapSteps g (mapSteps f c.steps)) →
      f ((g (b.mapNested g)).mapNested f) = g ((f (b.mapNested f)).mapNested g)) (steps : Steps) :
    mapSteps f (mapSteps g steps) = mapSteps g (mapSteps f steps) := by
  induction steps using Steps.tree_induction with
  | nil => rfl
  | cons s rest ihs ihr =>
    obtain ⟨id, label, body⟩ := s
    rw [mapSteps, mapSteps, mapSteps, mapSteps, ihr, Step.mapBody, Step.mapBody, Step.mapBody, Step.mapBody, h body ihs]

end Switchboard.Flow
