import Mathlib.Data.List.Nodup
import Mathlib.Data.List.Range
import Switchboard.Flow.Branch
import Switchboard.Proofs.Flow.Tree
import Switchboard.Proofs.Text.Numeral
import Switchboard.Proofs.Text.Split
/-!
# Branch paths lead where they were made

A branch path is made from the path of a list, the index of one of its steps and the selector of one of the step's lists.
If the path that it was made from leads to the list, it leads to the list that was selected (`resolveBranch_child`): a path
falls apart at its dots, numbers are read as they were written, and no two lists of a step have the same selector.
-/
namespace Switchboard.Flow

open Text (Readable)

/-! ## Selectors -/

/-- The characters of a selector. -/
theorem toList_selector : ∀ s : Selector, s.text.toList = match s with
    | .option i => 'o' :: Nat.toDigits 10 i
    | .invalidInput => ['i']
    | .branch i => 'b' :: Nat.toDigits 10 i
    | .fallback => ['f']
  | .option i | .branch i => (String.toList_append ..).trans (congrArg (_ :: ·) (Text.toList_toString_nat i))
  | .invalidInput | .fallback => rfl

theorem Selector.text_injective {a b : Selector} (h : a.text = b.text) : a = b := by
  have hlist := congrArg String.toList h
  rw [toList_selector, toList_selector] at hlist
  cases a <;> cases b <;> injection hlist with hfirst hrest <;> first
    | rfl
    | exact absurd hfirst (by decide)
    | rw [Text.toDigits_inj hrest]

/-- **No two lists of a step have the same selector.** -/
theorem selectors_nodup (b : Body) : (b.children.map Child.selector).Nodup := by
  have hoptions : ∀ (os : List MenuOption) (i : Nat),
      (optionChildren i os).map Child.selector = (List.range' i os.length).map Selector.option := by
    intro os
    induction os with
    | nil => exact fun _ => rfl
    | cons o os ih => exact fun i => congrArg (Selector.option i :: ·) (ih (i + 1))
  have hbranches : ∀ (bs : List Branch) (i : Nat),
      (branchChildren i bs).map Child.selector = (List.range' i bs.length).map Selector.branch := by
    intro bs
    induction bs with
    | nil => exact fun _ => rfl
    | cons b bs ih => exact fun i => congrArg (Selector.branch i :: ·) (ih (i + 1))
  cases b with
  | menu p os invalid =>
    rw [Body.children, List.map_append, hoptions, List.nodup_append]
    refine ⟨(List.nodup_range' ..).map fun _ _ h => Selector.option.inj h, List.nodup_singleton _, ?_⟩
    rintro _ hs _ ht rfl
    obtain ⟨i, -, rfl⟩ := List.mem_map.1 hs
    cases List.mem_singleton.1 ht
  | schedule z bs fallback =>
    rw [Body.children, List.map_append, hbranches, List.nodup_append]
    refine ⟨(List.nodup_range' ..).map fun _ _ h => Selector.branch.inj h, List.nodup_singleton _, ?_⟩
    rintro _ hs _ ht rfl
    obtain ⟨i, -, rfl⟩ := List.mem_map.1 hs
    cases List.mem_singleton.1 ht
  | _ => exact List.nodup_nil

theorem childOf?_of_mem {s : Step} {c : Child} (h : c ∈ s.children) : childOf? s c.selector.text = some c.steps := by
  unfold childOf?
  cases hfind : s.children.find? (fun d => d.selector.text = c.selector.text) with
  | none => exact absurd (decide_eq_true rfl) (List.find?_eq_none.1 hfind c h)
  | some d =>
    have hsame := Selector.text_injective (of_decide_eq_true
      (List.find?_some (p := fun d : Child => decide (d.selector.text = c.selector.text)) hfind))
    rw [List.inj_on_of_nodup_map (selectors_nodup s.body) (List.mem_of_find?_eq_some hfind) h hsame]
    rfl

/-! ## Parts of a path -/

theorem dot_not_mem_selector (s : Selector) : '.' ∉ s.text.toList := by
  rw [toList_selector]
  cases s with
  | option i | branch i => exact List.not_mem_cons_of_ne_of_not_mem (by decide) (Text.not_mem_toDigits (by decide) i)
  | invalidInput | fallback => decide

/-- The parts of the path that leads to a list; none lead to the root. -/
def pathParts (branch : Option String) : List String := (given branch).elim [] (Text.parts '.')

theorem branchPath_of_given {parent : Option String} {p : String} (h : given parent = some p) (i : Int) (s : String) :
    branchPath parent i s = p ++ "." ++ toString i ++ "." ++ s := by
  obtain ⟨rfl, hne⟩ := given_eq_some.1 h
  unfold branchPath
  dsimp only
  rw [if_neg hne]

theorem branchPath_of_root {parent : Option String} (h : given parent = none) (i : Int) (s : String) :
    branchPath parent i s = toString i ++ "." ++ s := by
  cases parent with
  | none => exact congrArg (· ++ "." ++ s) (String.empty_append ..)
  | some q =>
    rw [given] at h
    unfold branchPath
    split at h
    · rename_i hq
      dsimp only
      rw [if_pos hq, String.empty_append]
    · cases h

/-- **The path of a nested list is no empty text.** -/
theorem given_branchPath (parent : Option String) (i : Nat) (s : Selector) :
    given (some (branchPath parent i s.text)) = some (branchPath parent i s.text) := by
  refine if_neg fun h => ?_
  have hlist := congrArg String.toList h
  unfold branchPath at hlist
  rw [String.toList_append, toList_selector] at hlist
  cases s <;> exact List.append_ne_nil_of_right_ne_nil _ (List.cons_ne_nil _ _) hlist

/-- **The parts of the path of a nested list**: those of the path that it was made from, an index and a selector. -/
theorem pathParts_branchPath (parent : Option String) (i : Nat) (s : Selector) :
    pathParts (some (branchPath parent i s.text)) = pathParts parent ++ [toString (i : Int), s.text] := by
  have hdot : ".".toList = ['.'] := rfl
  have htail : Text.splitOn '.' ((toString (i : Int)).toList ++ '.' :: s.text.toList) =
      [(toString (i : Int)).toList, s.text.toList] := by
    rw [Text.splitOn_append, Text.splitOn_of_not_mem (Text.not_mem_toString (by decide) (by decide) i),
      Text.splitOn_of_not_mem (dot_not_mem_selector s)]
    rfl
  rw [pathParts, given_branchPath, Option.elim_some, Text.parts]
  cases h : given parent with
  | none =>
    rw [branchPath_of_root h, String.toList_append, String.toList_append, hdot, List.append_assoc, List.singleton_append,
      htail, pathParts, h]
    simp
  | some p =>
    have hlist : (branchPath parent i s.text).toList =
        p.toList ++ '.' :: ((toString (i : Int)).toList ++ '.' :: s.text.toList) := by
      simp [branchPath_of_given h, hdot]
    rw [hlist, Text.splitOn_append, htail, pathParts, h]
    simp [Text.parts]

/-! ## Leading there -/

theorem descend_append (rest : List String) : ∀ {front : List String} {steps nested : Steps},
    descend steps front = some nested → descend steps (front ++ rest) = descend nested rest
  | [], steps, nested, h => by
    rw [descend] at h
    rw [Option.some.inj h, List.nil_append]
  | [_], _, _, h => nomatch h
  | index :: selector :: front, steps, nested, h => by
    rw [descend] at h
    obtain ⟨i, hi, h⟩ := Option.bind_eq_some_iff.1 h
    obtain ⟨s, hs, h⟩ := Option.bind_eq_some_iff.1 h
    obtain ⟨list, hlist, h⟩ := Option.bind_eq_some_iff.1 h
    rw [List.cons_append, List.cons_append, descend, hi, Option.bind_eq_bind, Option.bind_some, hs, Option.bind_eq_bind,
      Option.bind_some, hlist, Option.bind_eq_bind, Option.bind_some]
    exact descend_append rest h

theorem even_of_descend : ∀ {path : List String} {steps nested : Steps}, descend steps path = some nested →
    path.length % 2 = 0
  | [], _, _, _ => rfl
  | [_], _, _, h => nomatch h
  | index :: selector :: path, steps, nested, h => by
    rw [descend] at h
    obtain ⟨i, -, h⟩ := Option.bind_eq_some_iff.1 h
    obtain ⟨s, -, h⟩ := Option.bind_eq_some_iff.1 h
    obtain ⟨list, -, h⟩ := Option.bind_eq_some_iff.1 h
    have := even_of_descend h
    rw [List.length_cons, List.length_cons]
    omega

theorem resolveBranch_eq_ok {root l : Steps} {branch : Option String} :
    resolveBranch root branch = .ok l ↔ descend root (pathParts branch) = some l := by
  unfold resolveBranch pathParts
  cases given branch with
  | none => simp [descend]
  | some p =>
    dsimp only [Option.elim]
    cases hdescend : descend root (Text.parts '.' p) with
    | none => split <;> simp
    | some nested =>
      rw [if_neg (by rw [even_of_descend hdescend]; decide)]
      simp

/-- **The path of a nested list leads to it**, if the path that it was made from leads to the list of its step. -/
theorem resolveBranch_child {root l : Steps} {branch : Option String} (h : resolveBranch root branch = .ok l) {i : Nat}
    {s : Step} (hs : l[i]? = some s) (hi : Readable i) {c : Child} (hc : c ∈ s.children) :
    resolveBranch root (some (branchPath branch i c.selector.text)) = .ok c.steps := by
  have hstep : stepAt? l (i : Int) = some s := by
    rw [stepAt?, if_pos (Int.natCast_nonneg i)]
    exact hs
  rw [resolveBranch_eq_ok] at h ⊢
  rw [pathParts_branchPath, descend_append _ h, descend, Text.int?_toString hi, Option.bind_eq_bind, Option.bind_some,
    hstep, Option.bind_eq_bind, Option.bind_some, childOf?_of_mem hc]
  rfl

/-! ## The steps of a list -/

theorem sublist_flat : ∀ steps : Steps, steps.Sublist (flat steps)
  | [] => .slnil
  | s :: rest => by
    rw [flat_cons]
    exact ((sublist_flat rest).trans (List.sublist_append_right _ _)).cons_cons s

theorem flat_child_sublist {steps : Steps} {s : Step} {c : Child} (hs : s ∈ steps) (hc : c ∈ s.children) :
    (flat c.steps).Sublist (flat steps) := by
  induction steps with
  | nil => cases hs
  | cons t rest ih =>
    rw [flat_cons]
    refine List.Sublist.cons t ?_
    rcases List.mem_cons.1 hs with rfl | hs
    · have : (flat c.steps).Sublist (s.children.flatMap fun c => flat c.steps) := by
        rw [List.flatMap_def]
        exact List.sublist_flatten_of_mem (List.mem_map_of_mem (f := fun c : Child => flat c.steps) hc)
      exact this.trans (List.sublist_append_left _ _)
    · exact (ih hs).trans (List.sublist_append_right _ _)

theorem mem_of_stepAt? {steps : Steps} {i : Int} {s : Step} (h : stepAt? steps i = some s) : s ∈ steps := by
  unfold stepAt? at h
  split at h
  · exact List.mem_of_getElem? h
  · split at h
    · exact List.mem_of_getElem? h
    · cases h

theorem flat_of_descend : ∀ {path : List String} {steps nested : Steps}, descend steps path = some nested →
    (flat nested).Sublist (flat steps)
  | [], _, _, h => by
    rw [descend] at h
    rw [Option.some.inj h]
  | [_], _, _, h => nomatch h
  | index :: selector :: path, steps, nested, h => by
    rw [descend] at h
    obtain ⟨i, -, h⟩ := Option.bind_eq_some_iff.1 h
    obtain ⟨s, hs, h⟩ := Option.bind_eq_some_iff.1 h
    obtain ⟨list, hlist, h⟩ := Option.bind_eq_some_iff.1 h
    obtain ⟨c, hc, rfl⟩ := Option.map_eq_some_iff.1 hlist
    exact (flat_of_descend h).trans (flat_child_sublist (mem_of_stepAt? hs) (List.mem_of_find?_eq_some hc))

theorem flat_sublist_of_resolve {root l : Steps} {branch : Option String} (h : resolveBranch root branch = .ok l) :
    (flat l).Sublist (flat root) :=
  flat_of_descend (resolveBranch_eq_ok.1 h)

/-- **The steps of a list that a branch leads to** are steps of the flow. -/
theorem sublist_of_resolve {root l : Steps} {branch : Option String} (h : resolveBranch root branch = .ok l) :
    l.Sublist (flat root) :=
  (sublist_flat l).trans (flat_sublist_of_resolve h)

/-- **No list of a flow is longer than the flow.** -/
theorem length_le_of_resolve {root l : Steps} {branch : Option String} (h : resolveBranch root branch = .ok l) :
    l.length ≤ (flat root).length :=
  (sublist_of_resolve h).length_le

end Switchboard.Flow
