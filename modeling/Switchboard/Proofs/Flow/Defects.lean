import Switchboard.Proofs.Flow.Paths
/-!
# The first defect of a flow

A flow is accepted where it is well-formed, and refused for its first defect otherwise (`validate_exact`).  Defects rank by
kind: types that are not known come before misplaced ends, and these before repeated ids.  Within a kind the first step of
the walk is named.  A misplaced end is told by what stands behind it in its own list, which the walk does not show, so the
walk is taken here with those steps (`standings`); the search for misplaced ends, which goes through the tree on its own,
meets the steps in just that order (`terminalFrom?_eq`).
-/
namespace Switchboard.Flow

/-! ## Lists and siblings -/

/-- The lists of a flow: its own, and those that a step of one of them owns. -/
inductive ListOf (steps : Steps) : Steps → Prop where
  | top : ListOf steps steps
  | nested {l : Steps} {s : Step} {c : Child} (hl : ListOf steps l) (hs : s ∈ l) (hc : c ∈ s.children) :
    ListOf steps c.steps

theorem sizeOf_optionChild {os : List MenuOption} {i : Nat} {c : Child} (h : c ∈ optionChildren i os) :
    sizeOf c.steps < sizeOf os := by
  induction os generalizing i with
  | nil => cases h
  | cons o rest ih =>
    obtain ⟨digit, label, steps⟩ := o
    rcases List.mem_cons.mp h with rfl | h
    · simp only [List.cons.sizeOf_spec, MenuOption.mk.sizeOf_spec]
      omega
    · have := ih h
      simp only [List.cons.sizeOf_spec]
      omega

theorem sizeOf_branchChild {bs : List Branch} {i : Nat} {c : Child} (h : c ∈ branchChildren i bs) :
    sizeOf c.steps < sizeOf bs := by
  induction bs generalizing i with
  | nil => cases h
  | cons b rest ih =>
    obtain ⟨id, name, slots, steps⟩ := b
    rcases List.mem_cons.mp h with rfl | h
    · simp only [List.cons.sizeOf_spec, Branch.mk.sizeOf_spec]
      omega
    · have := ih h
      simp only [List.cons.sizeOf_spec]
      omega

theorem sizeOf_child {s : Step} {c : Child} (h : c ∈ s.children) : sizeOf c.steps < sizeOf s := by
  obtain ⟨id, label, body⟩ := s
  rw [Step.mk.sizeOf_spec]
  cases body with
  | menu p os invalid =>
    rw [Body.menu.sizeOf_spec]
    rcases List.mem_append.mp h with h | h
    · have := sizeOf_optionChild h
      omega
    · rw [List.mem_singleton.mp h]
      dsimp only
      omega
  | schedule z bs fallback =>
    rw [Body.schedule.sizeOf_spec]
    rcases List.mem_append.mp h with h | h
    · have := sizeOf_branchChild h
      omega
    · rw [List.mem_singleton.mp h]
      dsimp only
      omega
  | _ => cases h

/-- A visited step with the steps that stand behind it in its own list. -/
structure Standing where
  visit : Visit
  later : Steps

/-- The walk through a list from `index` on, each step with those behind it. -/
def standingsFrom (path : String) (index : Nat) : Steps → List Standing
  | [] => []
  | s :: rest =>
    ⟨⟨path, index, s⟩, rest⟩ ::
      ((s.children.attach.flatMap fun c => standingsFrom (childPath path index c.1.name) 0 c.1.steps) ++
        standingsFrom path (index + 1) rest)
termination_by steps => sizeOf steps
decreasing_by
  · have := sizeOf_child c.2
    simp only [List.cons.sizeOf_spec]
    omega
  · simp only [List.cons.sizeOf_spec]
    omega

theorem standingsFrom_nil (path : String) (index : Nat) : standingsFrom path index [] = [] := by rw [standingsFrom]

theorem standingsFrom_cons (path : String) (index : Nat) (s : Step) (rest : Steps) :
    standingsFrom path index (s :: rest) =
      ⟨⟨path, index, s⟩, rest⟩ ::
        ((s.children.flatMap fun c => standingsFrom (childPath path index c.name) 0 c.steps) ++
          standingsFrom path (index + 1) rest) := by
  have hchildren := List.attach_map_val (l := s.children) (f := fun c => standingsFrom (childPath path index c.name) 0 c.steps)
  rw [standingsFrom, List.flatMap_def, List.flatMap_def, hchildren]

/-- Every step of a flow with its place and the steps behind it in its list, depth first. -/
def standings (steps : Steps) : List Standing := standingsFrom "root" 0 steps

/-- **The walk with siblings is the walk.** -/
theorem map_visit_standings (steps : Steps) : (standings steps).map Standing.visit = walk steps := by
  suffices h : ∀ path index, (standingsFrom path index steps).map Standing.visit = walkFrom path index steps from h "root" 0
  induction steps using Steps.tree_induction with
  | nil => intro path index; rw [standingsFrom_nil]; rfl
  | cons s rest ihs ihr =>
    intro path index
    rw [standingsFrom_cons, walkFrom_cons, List.map_cons, List.map_append, List.map_flatMap, ihr]
    congr 2
    exact List.flatMap_congr fun c hc => ihs c hc _ _

/-- **What stands behind a step** is what is left of its list. -/
theorem later_of_mem_standings {steps : Steps} {t : Standing} (h : t ∈ standings steps) :
    ∃ l, ListOf steps l ∧ l.drop t.visit.index = t.visit.step :: t.later := by
  suffices hfrom : ∀ (part l : Steps) (path : String) (index : Nat), ListOf steps l → l.drop index = part →
      t ∈ standingsFrom path index part → ∃ m, ListOf steps m ∧ m.drop t.visit.index = t.visit.step :: t.later from
    hfrom steps steps "root" 0 .top rfl h
  intro part
  induction part using Steps.tree_induction with
  | nil =>
    intro l path index _ _ ht
    rw [standingsFrom_nil] at ht
    cases ht
  | cons s rest ihs ihr =>
    intro l path index hl hdrop ht
    rw [standingsFrom_cons, List.mem_cons, List.mem_append, List.mem_flatMap] at ht
    rcases ht with rfl | ⟨c, hc, ht⟩ | ht
    · exact ⟨l, hl, hdrop⟩
    · have hs : s ∈ l := List.mem_of_mem_drop (hdrop ▸ List.mem_cons_self)
      exact ihs c hc c.steps _ 0 (hl.nested hs hc) rfl ht
    · refine ihr l path (index + 1) hl ?_ ht
      rw [← List.drop_drop, hdrop, List.drop_one, List.tail_cons]

/-! ## What is right and what is wrong with a flow -/

/-- A well-formed flow. -/
structure WellFormed (steps : Steps) : Prop where
  /-- Every step of every list has a known type. -/
  known : ∀ l, ListOf steps l → ∀ s ∈ l, s.isKnown = true
  /-- In no list does a step stand behind one that ends the call. -/
  endsLast : ∀ l, ListOf steps l → ∀ before s after, l = before ++ s :: after → s.isTerminal = true → after = []
  /-- No id comes twice in the tree. -/
  distinct : ((walk steps).map fun v => v.step.id).Nodup

/-- The defect for which a flow is refused. -/
inductive FirstDefect (steps : Steps) : Defect → Prop where
  /-- The first step of the walk whose type is not known. -/
  | unknownType {before after : List Visit} {v : Visit} (walked : walk steps = before ++ v :: after)
    (first : ∀ u ∈ before, u.step.isKnown = true) (unknown : v.step.isKnown = false) :
    FirstDefect steps (.unknownType v.step.typeName v.place)
  /-- Types are known; the first step of the walk that ends the call with steps behind it. -/
  | misplacedTerminal {before after : List Standing} {t : Standing} (known : ∀ v ∈ walk steps, v.step.isKnown = true)
    (walked : standings steps = before ++ t :: after) (first : ∀ u ∈ before, u.visit.step.isTerminal = true → u.later = [])
    (terminal : t.visit.step.isTerminal = true) (misplaced : t.later ≠ []) :
    FirstDefect steps (.misplacedTerminal t.visit.step.typeName t.visit.place t.later.length)
  /-- Types are known and ends stand last; the first step of the walk whose id came earlier, and the step that had it. -/
  | duplicateId {before after : List Visit} {v w : Visit} (known : ∀ v ∈ walk steps, v.step.isKnown = true)
    (endsLast : ∀ t ∈ standings steps, t.visit.step.isTerminal = true → t.later = [])
    (walked : walk steps = before ++ v :: after) (first : (before.map fun u => u.step.id).Nodup) (earlier : w ∈ before)
    (same : w.step.id = v.step.id) : FirstDefect steps (.duplicateId v.step.id v.place w.place)

/-! ## Three searches -/

theorem unknownType?_eq_some {visits : List Visit} {d : Defect} :
    unknownType? visits = some d ↔
      ∃ before v after, visits = before ++ v :: after ∧ (∀ u ∈ before, u.step.isKnown = true) ∧ v.step.isKnown = false ∧
        d = .unknownType v.step.typeName v.place := by
  rw [unknownType?, Option.map_eq_some_iff]
  constructor
  · rintro ⟨v, hv, rfl⟩
    obtain ⟨hunknown, before, after, hsplit, hfirst⟩ := List.find?_eq_some_iff_append.mp hv
    exact ⟨before, v, after, hsplit, fun u hu => by simpa using hfirst u hu, by simpa using hunknown, rfl⟩
  · rintro ⟨before, v, after, hsplit, hfirst, hunknown, rfl⟩
    refine ⟨v, List.find?_eq_some_iff_append.mpr ⟨by simpa using hunknown, before, after, hsplit, fun u hu => ?_⟩, rfl⟩
    simpa using hfirst u hu

/-- The defect of a step that ends the call where it is not the last one of its list. -/
def Standing.defect? (t : Standing) : Option Defect :=
  if t.visit.step.isTerminal = true ∧ t.later ≠ [] then
    some (.misplacedTerminal t.visit.step.typeName t.visit.place t.later.length)
  else none

theorem Standing.defect?_eq_none {t : Standing} :
    t.defect? = none ↔ (t.visit.step.isTerminal = true → t.later = []) := by
  unfold Standing.defect?
  split
  · rename_i h
    simpa using h
  · rename_i h
    simpa using h

theorem findSome?_flatMap {α β γ : Type} (f : α → List β) (g : β → Option γ) (l : List α) :
    (l.flatMap f).findSome? g = l.findSome? fun a => (f a).findSome? g := by
  induction l with
  | nil => rfl
  | cons a l ih =>
    rw [List.flatMap_cons, List.findSome?_append, ih, List.findSome?_cons]
    cases (f a).findSome? g <;> rfl

theorem findSome?_congr {α β : Type} {f g : α → Option β} {l : List α} (h : ∀ a ∈ l, f a = g a) :
    l.findSome? f = l.findSome? g := by
  induction l with
  | nil => rfl
  | cons a l ih =>
    rw [List.findSome?_cons, List.findSome?_cons, h a List.mem_cons_self, ih fun b hb => h b (List.mem_cons_of_mem _ hb)]

/-- **The search for a misplaced end meets the steps in the order of the walk.** -/
theorem terminalFrom?_eq (steps : Steps) : ∀ (path : String) (index : Nat),
    terminalFrom? path index steps = (standingsFrom path index steps).findSome? Standing.defect? := by
  induction steps using Steps.tree_induction with
  | nil => intro path index; rw [standingsFrom_nil]; rfl
  | cons s rest ihs ihr =>
    intro path index
    have hbelow : terminalBody? path index s.body =
        (s.children.flatMap fun c => standingsFrom (childPath path index c.name) 0 c.steps).findSome? Standing.defect? := by
      rw [terminalBody?_eq, findSome?_flatMap]
      exact findSome?_congr fun c hc => ihs c hc _ _
    obtain ⟨id, label, body⟩ := s
    rw [terminalFrom?, standingsFrom_cons, List.findSome?_cons, List.findSome?_append, ← hbelow, ← ihr, Standing.defect?]
    by_cases hhere : (Step.mk id label body).isTerminal = true ∧ rest ≠ []
    · have hfound : ((Step.mk id label body).isTerminal && !rest.isEmpty) = true := by simpa using hhere
      rw [if_pos hfound, if_pos hhere]
      rfl
    · have hnot : ¬ ((Step.mk id label body).isTerminal && !rest.isEmpty) = true := by simpa using hhere
      rw [if_neg hnot, if_neg hhere]
      cases terminalBody? path index body <;> rfl

theorem terminalFrom?_eq_some {steps : Steps} {d : Defect} :
    terminalFrom? "root" 0 steps = some d ↔
      ∃ before t after, standings steps = before ++ t :: after ∧
        (∀ u ∈ before, u.visit.step.isTerminal = true → u.later = []) ∧
        (t.visit.step.isTerminal = true ∧ t.later ≠ []) ∧
        d = .misplacedTerminal t.visit.step.typeName t.visit.place t.later.length := by
  have hdefect (t : Standing) : t.defect? = some d ↔ (t.visit.step.isTerminal = true ∧ t.later ≠ []) ∧
      d = .misplacedTerminal t.visit.step.typeName t.visit.place t.later.length := by
    unfold Standing.defect?
    split
    · rename_i h
      simp [h, eq_comm]
    · rename_i h
      simp [h]
  rw [terminalFrom?_eq, List.findSome?_eq_some_iff]
  constructor
  · rintro ⟨before, t, after, hsplit, ht, hfirst⟩
    exact ⟨before, t, after, hsplit, fun u hu => Standing.defect?_eq_none.mp (hfirst u hu), (hdefect t).mp ht⟩
  · rintro ⟨before, t, after, hsplit, hfirst, ht⟩
    exact ⟨before, t, after, hsplit, (hdefect t).mpr ht, fun u hu => Standing.defect?_eq_none.mpr (hfirst u hu)⟩

theorem duplicateFrom?_eq_some {visits : List Visit} {seen : List (String × String)} {d : Defect} :
    duplicateFrom? seen visits = some d ↔
      ∃ before v after s, visits = before ++ v :: after ∧ (before.map fun u => u.step.id).Nodup ∧
        (∀ u ∈ before, u.step.id ∉ seen.map Prod.fst) ∧
        (seen ++ before.map fun u => (u.step.id, u.place)).find? (fun s => s.1 = v.step.id) = some s ∧
        d = .duplicateId v.step.id v.place s.2 := by
  induction visits generalizing seen with
  | nil => simp [duplicateFrom?]
  | cons v rest ih =>
    rw [duplicateFrom?]
    split
    · rename_i s hs
      have hseen : v.step.id ∈ seen.map Prod.fst :=
        List.mem_map.mpr ⟨s, List.mem_of_find?_eq_some hs, by simpa using List.find?_some hs⟩
      constructor
      · intro hd
        exact ⟨[], v, rest, s, rfl, List.nodup_nil, List.forall_mem_nil _, by simpa using hs, (Option.some.inj hd).symm⟩
      · rintro ⟨before, u, after, s', hsplit, -, hfresh, hfind, rfl⟩
        cases before with
        | nil =>
          obtain ⟨rfl, -⟩ := List.cons.inj hsplit
          rw [List.map_nil, List.append_nil, hs] at hfind
          rw [Option.some.inj hfind]
        | cons w before =>
          obtain ⟨rfl, -⟩ := List.cons.inj hsplit
          exact absurd hseen (hfresh v List.mem_cons_self)
    · rename_i hs
      have hfresh : v.step.id ∉ seen.map Prod.fst := by
        intro hin
        obtain ⟨s, hmem, hid⟩ := List.mem_map.mp hin
        simpa [hid] using List.find?_eq_none.mp hs s hmem
      rw [ih]
      constructor
      · rintro ⟨before, u, after, s, rfl, hdistinct, hbefore, hfind, rfl⟩
        refine ⟨v :: before, u, after, s, rfl, ?_, ?_, ?_, rfl⟩
        · rw [List.map_cons, List.nodup_cons]
          refine ⟨fun hv => ?_, hdistinct⟩
          obtain ⟨w, hw, hid⟩ := List.mem_map.mp hv
          exact hbefore w hw (by simp [hid])
        · refine List.forall_mem_cons.mpr ⟨hfresh, fun w hw hin => hbefore w hw ?_⟩
          rw [List.map_append]
          exact List.mem_append_left _ hin
        · rwa [List.append_assoc] at hfind
      · rintro ⟨before, u, after, s, hsplit, hdistinct, hbefore, hfind, rfl⟩
        cases before with
        | nil =>
          obtain ⟨rfl, -⟩ := List.cons.inj hsplit
          rw [List.map_nil, List.append_nil, hs] at hfind
          cases hfind
        | cons w before =>
          obtain ⟨rfl, rfl⟩ := List.cons.inj hsplit
          rw [List.map_cons, List.nodup_cons] at hdistinct
          refine ⟨before, u, after, s, rfl, hdistinct.2, fun w hw hin => ?_, ?_, rfl⟩
          · rw [List.map_append, List.mem_append] at hin
            rcases hin with hin | hin
            · exact hbefore w (List.mem_cons_of_mem _ hw) hin
            · refine hdistinct.1 (List.mem_map.mpr ⟨w, hw, ?_⟩)
              simpa using hin
          · rw [List.append_assoc]
            exact hfind

/-- **The search for a repeated id** stops at the first step whose id came earlier, and finds the step that had it. -/
theorem duplicateFrom?_nil_eq_some {visits : List Visit} {d : Defect} :
    duplicateFrom? [] visits = some d ↔
      ∃ before v after w, visits = before ++ v :: after ∧ (before.map fun u => u.step.id).Nodup ∧ w ∈ before ∧
        w.step.id = v.step.id ∧ d = .duplicateId v.step.id v.place w.place := by
  rw [duplicateFrom?_eq_some]
  constructor
  · rintro ⟨before, v, after, s, hsplit, hdistinct, -, hfind, rfl⟩
    rw [List.nil_append, List.find?_map, Option.map_eq_some_iff] at hfind
    obtain ⟨w, hw, rfl⟩ := hfind
    exact ⟨before, v, after, w, hsplit, hdistinct, List.mem_of_find?_eq_some hw, by simpa using List.find?_some hw, rfl⟩
  · rintro ⟨before, v, after, w, hsplit, hdistinct, hw, hid, rfl⟩
    refine ⟨before, v, after, (w.step.id, w.place), hsplit, hdistinct, fun u _ => List.not_mem_nil, ?_, rfl⟩
    rw [List.nil_append, List.find?_map, Option.map_eq_some_iff]
    cases hfind : before.find? ((fun s => decide (s.1 = v.step.id)) ∘ fun u => (u.step.id, u.place)) with
    | none => simpa [hid] using List.find?_eq_none.mp hfind w hw
    | some u =>
      have hu : u.step.id = v.step.id := by simpa using List.find?_some hfind
      exact ⟨u, rfl, by rw [List.inj_on_of_nodup_map hdistinct (List.mem_of_find?_eq_some hfind) hw (hu.trans hid.symm)]⟩

/-! ## The verdict -/

theorem flat_sublist_of_listOf {steps l : Steps} (h : ListOf steps l) : (flat l).Sublist (flat steps) := by
  induction h with
  | top => exact List.Sublist.refl _
  | nested _ hs hc ih => exact (flat_child_sublist hs hc).trans ih

/-- **The steps of a flow** are those of its lists. -/
theorem mem_flat_iff {steps : Steps} {s : Step} : s ∈ flat steps ↔ ∃ l, ListOf steps l ∧ s ∈ l := by
  constructor
  · intro h
    rw [flat, ← map_visit_standings, List.map_map] at h
    obtain ⟨t, ht, rfl⟩ := List.mem_map.mp h
    obtain ⟨l, hl, hdrop⟩ := later_of_mem_standings ht
    exact ⟨l, hl, List.mem_of_mem_drop (hdrop ▸ List.mem_cons_self)⟩
  · rintro ⟨l, hl, hs⟩
    exact (flat_sublist_of_listOf hl).subset ((sublist_flat l).subset hs)

theorem forall_listOf {P : Steps → Prop} {steps : Steps} :
    (∀ l, ListOf steps l → P l) ↔ P steps ∧ ∀ s ∈ flat steps, ∀ c ∈ s.children, P c.steps := by
  constructor
  · intro h
    refine ⟨h steps .top, fun s hs c hc => ?_⟩
    obtain ⟨l, hl, hsl⟩ := mem_flat_iff.mp hs
    exact h c.steps (hl.nested hsl hc)
  · rintro ⟨htop, hnested⟩ l hl
    cases hl with
    | top => exact htop
    | nested hl hs hc => exact hnested _ (mem_flat_iff.mpr ⟨_, hl, hs⟩) _ hc

theorem endsLast_iff {l : Steps} :
    EndsLast l ↔ ∀ before s after, l = before ++ s :: after → s.isTerminal = true → after = [] := by
  induction l with
  | nil => simp [EndsLast]
  | cons s rest ih =>
    rw [endsLast_cons, ih]
    constructor
    · rintro ⟨hs, hrest⟩ before u after hsplit
      cases before with
      | nil =>
        obtain ⟨rfl, rfl⟩ := List.cons.inj hsplit
        exact hs
      | cons w before => exact hrest before u after (List.cons.inj hsplit).2
    · intro h
      exact ⟨h [] s rest rfl, fun before u after hsplit => h (s :: before) u after (by rw [hsplit]; rfl)⟩

theorem wellFormed_iff {steps : Steps} : WellFormed steps ↔ validate steps = .ok () := by
  have hknown : (∀ l, ListOf steps l → ∀ s ∈ l, s.isKnown = true) ↔ ∀ s ∈ flat steps, s.isKnown = true :=
    ⟨fun h s hs => (mem_flat_iff.mp hs).elim fun l hl => h l hl.1 s hl.2,
      fun h l hl s hs => h s (mem_flat_iff.mpr ⟨l, hl, hs⟩)⟩
  have hids : ((walk steps).map fun v => v.step.id) = (flat steps).map Step.id := by
    rw [flat, List.map_map]
    rfl
  rw [validate_eq_ok, ← hknown, ← hids, ← forall_listOf]
  constructor
  · intro h
    exact ⟨h.known, fun l hl => endsLast_iff.mpr (h.endsLast l hl), h.distinct⟩
  · rintro ⟨h₁, h₂, h₃⟩
    exact ⟨h₁, fun l hl => endsLast_iff.mp (h₂ l hl), h₃⟩

/-- **The first defect** is the one that the searches find, in their order. -/
theorem firstDefect_iff {steps : Steps} {d : Defect} : FirstDefect steps d ↔ defect? steps = some d := by
  have hknown : (∀ v ∈ walk steps, v.step.isKnown = true) ↔ unknownType? (walk steps) = none := by
    simp [unknownType?]
  have hends : (∀ t ∈ standings steps, t.visit.step.isTerminal = true → t.later = []) ↔
      terminalFrom? "root" 0 steps = none := by
    rw [terminalFrom?_eq, List.findSome?_eq_none_iff]
    exact forall₂_congr fun t _ => Standing.defect?_eq_none.symm
  rw [defect?]
  constructor
  · intro h
    cases h with
    | unknownType walked first unknown =>
      rw [unknownType?_eq_some.mpr ⟨_, _, _, walked, first, unknown, rfl⟩]
    | misplacedTerminal known walked first terminal misplaced =>
      rw [hknown.mp known, terminalFrom?_eq_some.mpr ⟨_, _, _, walked, first, ⟨terminal, misplaced⟩, rfl⟩]
    | duplicateId known endsLast walked first earlier same =>
      rw [hknown.mp known, hends.mp endsLast]
      exact duplicateFrom?_nil_eq_some.mpr ⟨_, _, _, _, walked, first, earlier, same, rfl⟩
  · intro h
    cases hunknown : unknownType? (walk steps) with
    | some e =>
      rw [hunknown] at h
      cases h
      obtain ⟨before, v, after, walked, first, unknown, rfl⟩ := unknownType?_eq_some.mp hunknown
      exact .unknownType walked first unknown
    | none =>
      rw [hunknown] at h
      have known := hknown.mpr hunknown
      cases hterminal : terminalFrom? "root" 0 steps with
      | some e =>
        rw [hterminal] at h
        cases h
        obtain ⟨before, t, after, walked, first, ⟨terminal, misplaced⟩, rfl⟩ := terminalFrom?_eq_some.mp hterminal
        exact .misplacedTerminal known walked first terminal misplaced
      | none =>
        rw [hterminal] at h
        obtain ⟨before, v, after, w, walked, first, earlier, same, rfl⟩ := duplicateFrom?_nil_eq_some.mp h
        exact .duplicateId known (hends.mpr hterminal) walked first earlier same

/-- **A flow is accepted exactly where it is well-formed, and refused for its first defect**: an unknown type before a
misplaced end before a repeated id, and of each the first one of the walk.  The steps that stand behind a visited one are
what is left of its list. -/
theorem validate_exact (steps : Steps) :
    (validate steps = .ok () ↔ WellFormed steps) ∧ (∀ d, validate steps = .error d ↔ FirstDefect steps d) ∧
      (standings steps).map Standing.visit = walk steps ∧
      ∀ t ∈ standings steps, ∃ l, ListOf steps l ∧ l.drop t.visit.index = t.visit.step :: t.later := by
  refine ⟨wellFormed_iff.symm, fun d => ?_, map_visit_standings steps, fun t => later_of_mem_standings⟩
  rw [firstDefect_iff, validate]
  cases defect? steps <;> simp

end Switchboard.Flow
