import Switchboard.Proofs.Flow.Paths
/-!
# Which paths lead to a list

The parts of a path name a list from the root, pair by pair: an index counts out a step of the list that was reached, and
a selector picks one of the lists of that step.  `Reaches` says so without saying how a step is looked up, and leaves open
how an index counts.  An address counts from the front (`CountsOut`).  The lookup counts from the back as well, where an
index is negative (`CountsEitherWay`); apart from this it takes the addresses and nothing else, and what it does not take
it refuses with the path (`resolveBranch_reaches`).
-/
namespace Switchboard.Flow

/-! ## Counting out a step -/

/-- The step that is behind `i` others. -/
def CountsOut (l : Steps) (i : Int) (s : Step) : Prop :=
  ∃ before after, l = before ++ s :: after ∧ i = before.length

/-- The step that is behind `i` others, or, where `i` is negative, the `-i`-th from the back. -/
def CountsEitherWay (l : Steps) (i : Int) (s : Step) : Prop :=
  ∃ before after, l = before ++ s :: after ∧ (i = before.length ∨ i = -(after.length + 1 : Int))

theorem getElem?_iff_split {l : Steps} {n : Nat} {s : Step} :
    l[n]? = some s ↔ ∃ before after, l = before ++ s :: after ∧ n = before.length := by
  constructor
  · intro h
    obtain ⟨hn, rfl⟩ := List.getElem?_eq_some_iff.1 h
    refine ⟨l.take n, l.drop (n + 1), ?_, (List.length_take_of_le (Nat.le_of_lt hn)).symm⟩
    rw [← List.drop_eq_getElem_cons hn, List.take_append_drop]
  · rintro ⟨before, after, rfl, rfl⟩
    rw [List.getElem?_append_right (Nat.le_refl _), Nat.sub_self, List.getElem?_cons_zero]

/-- **A step is looked up by counting it out**, either way. -/
theorem stepAt?_iff {l : Steps} {i : Int} {s : Step} : stepAt? l i = some s ↔ CountsEitherWay l i s := by
  unfold stepAt? CountsEitherWay
  split
  · rename_i hi
    rw [getElem?_iff_split]
    refine exists_congr fun before => exists_congr fun after => and_congr_right fun _ => ?_
    omega
  · rename_i hi
    split
    · rename_i hback
      rw [getElem?_iff_split]
      refine exists_congr fun before => exists_congr fun after => and_congr_right fun hl => ?_
      have hlength : l.length = before.length + (after.length + 1) := by
        rw [hl, List.length_append, List.length_cons]
      omega
    · rename_i hback
      refine iff_of_false (by simp) ?_
      rintro ⟨before, after, rfl, h⟩
      rw [List.length_append, List.length_cons] at hback
      omega

/-- **A count from the front** is a count either way by a number that is not negative. -/
theorem countsOut_iff {l : Steps} {i : Int} {s : Step} : CountsOut l i s ↔ CountsEitherWay l i s ∧ 0 ≤ i := by
  constructor
  · rintro ⟨before, after, hl, hi⟩
    exact ⟨⟨before, after, hl, .inl hi⟩, by omega⟩
  · rintro ⟨⟨before, after, hl, hi⟩, h⟩
    exact ⟨before, after, hl, hi.resolve_right (by omega)⟩

/-! ## Reaching a list -/

/-- Where the parts of a path lead from a list, for indices that count out steps as `counts` says. -/
inductive Reaches (counts : Steps → Int → Step → Prop) : Steps → List String → Steps → Prop where
  | here (l : Steps) : Reaches counts l [] l
  | down {l nested : Steps} {index : String} {i : Int} {s : Step} {c : Child} {rest : List String}
      (hindex : Text.int? index = some i) (hstep : counts l i s) (hchild : c ∈ s.children)
      (hrest : Reaches counts c.steps rest nested) : Reaches counts l (index :: c.selector.text :: rest) nested

/-- Every other part of a path, from the first. -/
def indices : List String → List String
  | [] => []
  | [index] => [index]
  | index :: _ :: rest => index :: indices rest

theorem childOf?_eq_some {s : Step} {selector : String} {l : Steps} :
    childOf? s selector = some l ↔ ∃ c ∈ s.children, c.selector.text = selector ∧ c.steps = l := by
  constructor
  · intro h
    obtain ⟨c, hc, rfl⟩ := Option.map_eq_some_iff.1 h
    exact ⟨c, List.mem_of_find?_eq_some hc, by simpa using List.find?_some hc, rfl⟩
  · rintro ⟨c, hc, rfl, rfl⟩
    exact childOf?_of_mem hc

/-- **The descent takes the paths that lead somewhere**, with either way of counting. -/
theorem descend_iff : ∀ {path : List String} {l nested : Steps},
    descend l path = some nested ↔ Reaches CountsEitherWay l path nested
  | [], l, nested => by
    rw [descend, Option.some_inj]
    exact ⟨fun h => h ▸ .here l, fun h => by cases h; rfl⟩
  | [_], _, _ => iff_of_false (fun h => nomatch h) fun h => nomatch h
  | index :: selector :: path, l, nested => by
    rw [descend]
    constructor
    · intro h
      obtain ⟨i, hi, h⟩ := Option.bind_eq_some_iff.1 h
      obtain ⟨s, hs, h⟩ := Option.bind_eq_some_iff.1 h
      obtain ⟨list, hlist, h⟩ := Option.bind_eq_some_iff.1 h
      obtain ⟨c, hc, rfl, rfl⟩ := childOf?_eq_some.1 hlist
      exact .down hi (stepAt?_iff.1 hs) hc (descend_iff.1 h)
    · rintro (_ | ⟨hi, hs, hc, hrest⟩)
      rw [hi, Option.bind_eq_bind, Option.bind_some, stepAt?_iff.2 hs, Option.bind_eq_bind, Option.bind_some,
        childOf?_of_mem hc]
      exact descend_iff.2 hrest

/-- **An address is a path that leads somewhere and has no negative index.** -/
theorem reaches_countsOut_iff {path : List String} {l nested : Steps} :
    Reaches CountsOut l path nested ↔
      Reaches CountsEitherWay l path nested ∧ ∀ index ∈ indices path, ∀ i, Text.int? index = some i → 0 ≤ i := by
  constructor
  · intro h
    induction h with
    | here l => exact ⟨.here l, fun _ h => nomatch h⟩
    | down hindex hstep hchild _ ih =>
      obtain ⟨hstep, hi⟩ := countsOut_iff.1 hstep
      refine ⟨.down hindex hstep hchild ih.1, fun index hmem i hread => ?_⟩
      rcases List.mem_cons.1 hmem with rfl | hmem
      · exact Option.some.inj (hindex.symm.trans hread) ▸ hi
      · exact ih.2 index hmem i hread
  · rintro ⟨h, hindices⟩
    induction h with
    | here l => exact .here l
    | down hindex hstep hchild _ ih =>
      have hi := hindices _ List.mem_cons_self _ hindex
      exact .down hindex (countsOut_iff.2 ⟨hstep, hi⟩) hchild
        (ih fun index hmem => hindices index (List.mem_cons_of_mem _ hmem))

/-! ## Resolving -/

/-- **A path that leads nowhere is refused**: as malformed if it has no selector for its last index, as a mismatch else. -/
theorem resolveBranch_eq_error {root : Steps} {branch : Option String} {f : BranchFault} :
    resolveBranch root branch = .error f ↔ descend root (pathParts branch) = none ∧ ∃ p, branch = some p ∧
      f = if (pathParts branch).length % 2 = 1 then .malformed p else .mismatch p := by
  unfold resolveBranch pathParts
  cases hgiven : given branch with
  | none => simp [descend]
  | some p =>
    obtain ⟨rfl, -⟩ := given_eq_some.1 hgiven
    dsimp only [Option.elim]
    cases hdescend : descend root (Text.parts '.' p) with
    | none => split <;> rename_i hodd <;> simp [hodd, @eq_comm _ f]
    | some nested =>
      rw [if_neg (by rw [even_of_descend hdescend]; decide)]
      simp

/-- **What a branch path is resolved to.**  A list is given exactly for the paths whose parts lead to it, pair by pair:
an index that counts out a step, from either end, and a selector of one of its lists.  The addresses, which count from the
front only, are those of these paths that have no negative index.  Every other path is refused with a fault that carries
it. -/
theorem resolveBranch_reaches (root : Steps) (branch : Option String) :
    (∀ l, resolveBranch root branch = .ok l ↔ Reaches CountsEitherWay root (pathParts branch) l) ∧
    (∀ l, Reaches CountsOut root (pathParts branch) l ↔ resolveBranch root branch = .ok l ∧
      ∀ index ∈ indices (pathParts branch), ∀ i, Text.int? index = some i → 0 ≤ i) ∧
    (∀ f, resolveBranch root branch = .error f ↔ (∀ l, ¬ Reaches CountsEitherWay root (pathParts branch) l) ∧
      ∃ p, branch = some p ∧ f = if (pathParts branch).length % 2 = 1 then .malformed p else .mismatch p) := by
  refine ⟨fun l => resolveBranch_eq_ok.trans descend_iff, fun l => ?_, fun f => ?_⟩
  · rw [resolveBranch_eq_ok, descend_iff, reaches_countsOut_iff]
  · rw [resolveBranch_eq_error, Option.eq_none_iff_forall_ne_some]
    exact and_congr_left fun _ => forall_congr' fun l => not_congr descend_iff

/-- **A negative index is taken.**  In a flow of one menu whose option hangs up, the path of the last step's first option
leads to the list of that option, and is no address of any list. -/
theorem resolves_from_the_back :
    let nested : Steps := [⟨"a", none, .hangup none⟩]
    let root : Steps :=
      [⟨"m", none, .menu ⟨⟨.tts, some "Press 1", none, .cedar, .enUS, none⟩, 1, 5, 2⟩ [⟨"1", none, nested⟩] []⟩]
    resolveBranch root (some "-1.o0") = .ok nested ∧ ∀ l, ¬ Reaches CountsOut root (pathParts (some "-1.o0")) l := by
  intro nested root
  refine ⟨rfl, fun l h => ?_⟩
  have hindices := ((resolveBranch_reaches root _).2.1 l).1 h |>.2
  exact absurd (hindices "-1" (by decide) (-1) (by decide)) (by decide)

end Switchboard.Flow
