import Mathlib.Logic.Function.Basic
import Mathlib.Logic.Relation
import Switchboard.Service.Task
/-!
# Tasks side by side

Tasks that are served at the same time take turns at their pauses.  What one of them does is judged on terms: at each of
its pauses the others may do what it relies on, and every change it makes itself is one it guarantees.  `Task.Upholds` says
that a task keeps its side, whatever the others do on theirs; it is proved part by part.  Tasks that keep to terms that fit
each other do so in every order in which they take turns (`interleave_upholds`), and a task that is run alone does
(`Upholds.run`).

A world may hold more than the state that tasks look at, such as a history of what has happened: a task that changes the
state then also says how the history goes on.
-/
namespace Switchboard

/-- The terms of tasks: what they see of a world, what they rely on and what they guarantee. -/
structure Terms (σ ω : Type) where
  see : ω → σ
  rely : ω → ω → Prop
  guar : ω → ω → Prop

namespace Task

variable {σ ε α β ω ι : Type}

theorem bind_done (t : Task σ ε α) : Task.bind done t = t := by
  induction t with
  | done | fail => rfl
  | look k ih => exact congrArg look (funext ih)
  | put s k ih => exact congrArg (put s) ih
  | pause p k ih => exact congrArg (pause p) ih

theorem bind_bind (t : Task σ ε α) {γ : Type} (f : α → Task σ ε β) (g : β → Task σ ε γ) :
    Task.bind g (Task.bind f t) = Task.bind (fun a => Task.bind g (f a)) t := by
  induction t with
  | done | fail => rfl
  | look k ih => exact congrArg look (funext ih)
  | put s k ih => exact congrArg (put s) ih
  | pause p k ih => exact congrArg (pause p) ih

instance : LawfulMonad (Task σ ε) :=
  LawfulMonad.mk' _ (fun t => bind_done t) (fun _ _ => rfl) (fun t f g => bind_bind t f g)

/-- A task keeps to its terms from a world on and ends as `post` says: each change it makes is guaranteed, whatever
happens at its pauses as far as it relies on it. -/
def Upholds (c : Terms σ ω) (post : Except ε α → ω → Prop) : Task σ ε α → ω → Prop
  | done a, w => post (.ok a) w
  | fail e, w => post (.error e) w
  | look k, w => Upholds c post (k (c.see w)) w
  | put s k, w => ∃ w', c.see w' = s ∧ c.guar w w' ∧ Upholds c post k w'
  | pause _ k, w => ∀ w', c.rely w w' → Upholds c post k w'

/-! ## Parts of tasks -/

section Rules

variable {c : Terms σ ω} {P Q : Except ε α → ω → Prop} {R : Except ε β → ω → Prop}

theorem Upholds.mono (hPQ : ∀ r w, P r w → Q r w) : ∀ {t : Task σ ε α} {w : ω}, t.Upholds c P w → t.Upholds c Q w
  | done _, _, h => hPQ _ _ h
  | fail _, _, h => hPQ _ _ h
  | look k, w, h => Upholds.mono hPQ (t := k (c.see w)) h
  | put _ _, _, ⟨w', hs, hg, h⟩ => ⟨w', hs, hg, Upholds.mono hPQ h⟩
  | pause _ _, _, h => fun w' hr => Upholds.mono hPQ (h w' hr)

/-- Terms that rely on less and guarantee more are kept as well. -/
theorem Upholds.of_terms {rely rely' guar guar' : ω → ω → Prop} {see : ω → σ} (hrely : ∀ w w', rely' w w' → rely w w')
    (hguar : ∀ w w', guar w w' → guar' w w') :
    ∀ {t : Task σ ε α} {w : ω}, t.Upholds ⟨see, rely, guar⟩ P w → t.Upholds ⟨see, rely', guar'⟩ P w
  | done _, _, h => h
  | fail _, _, h => h
  | look k, w, h => Upholds.of_terms hrely hguar (t := k (see w)) h
  | put _ _, _, ⟨w', hs, hg, h⟩ => ⟨w', hs, hguar _ _ hg, Upholds.of_terms hrely hguar h⟩
  | pause _ _, _, h => fun w' hr => Upholds.of_terms hrely hguar (h w' (hrely _ _ hr))

/-- What neither the others nor the task itself undo holds at the end as well. -/
theorem Upholds.and_stable {I : ω → Prop} (hI : ∀ w w', I w → c.rely w w' ∨ c.guar w w' → I w') :
    ∀ {t : Task σ ε α} {w : ω}, I w → t.Upholds c P w → t.Upholds c (fun r w' => P r w' ∧ I w') w
  | done _, _, hw, h => ⟨h, hw⟩
  | fail _, _, hw, h => ⟨h, hw⟩
  | look k, w, hw, h => Upholds.and_stable hI (t := k (c.see w)) hw h
  | put _ _, w, hw, ⟨w', hs, hg, h⟩ => ⟨w', hs, hg, Upholds.and_stable hI (hI w w' hw (.inr hg)) h⟩
  | pause _ _, w, hw, h => fun w' hr => Upholds.and_stable hI (hI w w' hw (.inl hr)) (h w' hr)

/-- **One part after another.**  The second part starts where the first one ends well; a fault of the first is one of the
whole. -/
theorem Upholds.bind {f : α → Task σ ε β} (hok : ∀ a w, P (.ok a) w → (f a).Upholds c R w)
    (herr : ∀ e w, P (.error e) w → R (.error e) w) :
    ∀ {t : Task σ ε α} {w : ω}, t.Upholds c P w → (t >>= f).Upholds c R w
  | done _, _, h => hok _ _ h
  | fail _, _, h => herr _ _ h
  | look k, w, h => Upholds.bind hok herr (t := k (c.see w)) h
  | put _ _, _, ⟨w', hs, hg, h⟩ => ⟨w', hs, hg, Upholds.bind hok herr h⟩
  | pause _ _, _, h => fun w' hr => Upholds.bind hok herr (h w' hr)

theorem Upholds.recover {handle : ε → Task σ ε α} (hok : ∀ a w, P (.ok a) w → Q (.ok a) w)
    (herr : ∀ e w, P (.error e) w → (handle e).Upholds c Q w) :
    ∀ {t : Task σ ε α} {w : ω}, t.Upholds c P w → (Task.recover handle t).Upholds c Q w
  | done _, _, h => hok _ _ h
  | fail _, _, h => herr _ _ h
  | look k, w, h => Upholds.recover hok herr (t := k (c.see w)) h
  | put _ _, _, ⟨w', hs, hg, h⟩ => ⟨w', hs, hg, Upholds.recover hok herr h⟩
  | pause _ _, _, h => fun w' hr => Upholds.recover hok herr (h w' hr)

theorem Upholds.attempt {A : Except ε (Except ε α) → ω → Prop} (h : ∀ r w, P r w → A (.ok r) w) :
    ∀ {t : Task σ ε α} {w : ω}, t.Upholds c P w → (Task.attempt t).Upholds c A w
  | done _, _, ht => h _ _ ht
  | fail _, _, ht => h _ _ ht
  | look k, w, ht => Upholds.attempt h (t := k (c.see w)) ht
  | put _ _, _, ⟨w', hs, hg, ht⟩ => ⟨w', hs, hg, Upholds.attempt h ht⟩
  | pause _ _, _, ht => fun w' hr => Upholds.attempt h (ht w' hr)

/-- **A task that keeps to two terms on its state alone** keeps to both of them. -/
theorem Upholds.and {rely rely' guar guar' : σ → σ → Prop} {A B : Except ε α → σ → Prop} :
    ∀ {t : Task σ ε α} {s : σ}, t.Upholds ⟨id, rely, guar⟩ A s → t.Upholds ⟨id, rely', guar'⟩ B s →
      t.Upholds ⟨id, fun a b => rely a b ∧ rely' a b, fun a b => guar a b ∧ guar' a b⟩ (fun r s => A r s ∧ B r s) s
  | done _, _, h, h' => ⟨h, h'⟩
  | fail _, _, h, h' => ⟨h, h'⟩
  | look k, s, h, h' => Upholds.and (t := k s) h h'
  | put _ _, _, ⟨_, rfl, hg, h⟩, ⟨_, rfl, hg', h'⟩ => ⟨_, rfl, ⟨hg, hg'⟩, Upholds.and h h'⟩
  | pause _ _, _, h, h' => fun s hr => Upholds.and (h s hr.1) (h' s hr.2)

theorem upholds_anything : ∀ (t : Task σ ε α) (s : σ),
    t.Upholds ⟨id, fun _ _ => True, fun _ _ => True⟩ (fun _ _ => True) s
  | done _, _ => trivial
  | fail _, _ => trivial
  | look k, s => upholds_anything (k s) s
  | put s k, _ => ⟨s, rfl, trivial, upholds_anything k s⟩
  | pause _ k, _ => fun s _ => upholds_anything k s

theorem upholds_pure {a : α} {w : ω} : (pure a : Task σ ε α).Upholds c P w ↔ P (.ok a) w := Iff.rfl

theorem upholds_fail {e : ε} {w : ω} : (fail e : Task σ ε α).Upholds c P w ↔ P (.error e) w := Iff.rfl

theorem upholds_look {k : σ → Task σ ε α} {w : ω} : (look k).Upholds c P w ↔ (k (c.see w)).Upholds c P w := Iff.rfl

theorem upholds_asks {f : σ → α} {w : ω} : (asks f : Task σ ε α).Upholds c P w ↔ P (.ok (f (c.see w))) w := Iff.rfl

theorem upholds_interrupt {P : Except ε Unit → ω → Prop} {p : Point} {w : ω} :
    (interrupt p).Upholds c P w ↔ ∀ w', c.rely w w' → P (.ok ()) w' := Iff.rfl

theorem upholds_interrupt_bind {p : Point} {f : Unit → Task σ ε α} {w : ω} :
    (interrupt p >>= f).Upholds c P w ↔ ∀ w', c.rely w w' → (f ()).Upholds c P w' := Iff.rfl

theorem upholds_update {P : Except ε Unit → ω → Prop} {f : σ → σ} {w : ω} :
    (update f).Upholds c P w ↔ ∃ w', c.see w' = f (c.see w) ∧ c.guar w w' ∧ P (.ok ()) w' := Iff.rfl

theorem upholds_ofExcept {r : Except ε α} {w : ω} : (ofExcept r).Upholds c P w ↔ P r w := by
  cases r <;> rfl

theorem upholds_ofExcept_bind {r : Except ε α} {f : α → Task σ ε β} {w : ω}
    (hok : ∀ a, r = .ok a → (f a).Upholds c R w) (herr : ∀ e, r = .error e → R (.error e) w) :
    (ofExcept r >>= f).Upholds c R w := by
  cases r with
  | ok a => exact hok a rfl
  | error e => exact herr e rfl

theorem upholds_atomically {f : σ → Except ε (α × σ)} {w : ω}
    (hok : ∀ a s, f (c.see w) = .ok (a, s) → ∃ w', c.see w' = s ∧ c.guar w w' ∧ P (.ok a) w')
    (herr : ∀ e, f (c.see w) = .error e → P (.error e) w) : (atomically f).Upholds c P w := by
  unfold atomically
  rw [upholds_look]
  split
  · rename_i a s hf
    exact hok a s hf
  · rename_i e hf
    exact herr e hf

end Rules

/-! ## Taking turns -/

/-- A task up to its next pause, and what is left of it. -/
def advance : Task σ ε α → σ → Task σ ε α × σ
  | done a, s => (done a, s)
  | fail e, s => (fail e, s)
  | look k, s => advance (k s) s
  | put s k, _ => advance k s
  | pause _ k, s => (k, s)

theorem advance_atomically_bind {f : σ → Except ε (α × σ)} {k : α → Task σ ε β} {s s' : σ} {a : α} (h : f s = .ok (a, s')) :
    (atomically f >>= k).advance s = (k a).advance s' := by
  change advance (bind k (atomically f)) s = _
  rw [atomically, bind, advance, h]
  rfl

/-- Tasks that take turns: each turn takes one of them to its next pause. -/
def interleave [DecidableEq ι] : List ι → (ι → Task σ ε α) → σ → (ι → Task σ ε α) × σ
  | [], ts, s => (ts, s)
  | i :: turns, ts, s => interleave turns (Function.update ts i ((ts i).advance s).1) ((ts i).advance s).2

theorem interleave_append [DecidableEq ι] (before after : List ι) (ts : ι → Task σ ε α) (s : σ) :
    interleave (before ++ after) ts s = interleave after (interleave before ts s).1 (interleave before ts s).2 := by
  induction before generalizing ts s with
  | nil => rfl
  | cons i before ih => exact ih _ _

theorem interleave_of_not_mem [DecidableEq ι] {i : ι} {turns : List ι} (h : i ∉ turns) (ts : ι → Task σ ε α) (s : σ) :
    (interleave turns ts s).1 i = ts i := by
  induction turns generalizing ts s with
  | nil => rfl
  | cons j turns ih =>
    rw [List.mem_cons, not_or] at h
    rw [interleave, ih h.2, Function.update_of_ne h.1]

/-- What a task has come to, where it has ended. -/
def outcome? : Task σ ε α → Option (Except ε α)
  | done a => some (.ok a)
  | fail e => some (.error e)
  | _ => none

/-- **An ended task takes no more turns.** -/
theorem interleave_outcome? [DecidableEq ι] {i : ι} {r : Except ε α} (turns : List ι) {ts : ι → Task σ ε α} (s : σ)
    (h : (ts i).outcome? = some r) : ((interleave turns ts s).1 i).outcome? = some r := by
  induction turns generalizing ts s with
  | nil => exact h
  | cons j turns ih =>
    refine ih _ ?_
    by_cases hj : i = j
    · subst hj
      rw [Function.update_self]
      cases hi : ts i <;> rw [hi] at h <;> first | exact h | cases h
    · rw [Function.update_of_ne hj]
      exact h

theorem interleave_concat [DecidableEq ι] (turns : List ι) (i : ι) (ts : ι → Task σ ε α) (s : σ) :
    (interleave (turns ++ [i]) ts s).2 = (((interleave turns ts s).1 i).advance (interleave turns ts s).2).2 := by
  rw [interleave_append, interleave, interleave]

/-- **A task that ends with its turn** has ended, whoever has turns behind it. -/
theorem outcome?_of_advance [DecidableEq ι] {turns : List ι} {i : ι} {ts : ι → Task σ ε α} {s : σ} {r : Except ε α}
    (h : (((interleave turns ts s).1 i).advance (interleave turns ts s).2).1.outcome? = some r) (after : List ι) :
    ((interleave (turns ++ i :: after) ts s).1 i).outcome? = some r := by
  rw [interleave_append, interleave]
  refine interleave_outcome? after _ ?_
  rw [Function.update_self]
  exact h

/-- **Some of the tasks taking turns** are a family of their own. -/
theorem interleave_map [DecidableEq ι] {κ : Type} [DecidableEq κ] {f : κ → ι} (hf : Function.Injective f) (turns : List κ)
    (ts : ι → Task σ ε α) (s : σ) :
    (fun k => (interleave (turns.map f) ts s).1 (f k)) = (interleave turns (fun k => ts (f k)) s).1 ∧
      (interleave (turns.map f) ts s).2 = (interleave turns (fun k => ts (f k)) s).2 := by
  induction turns generalizing ts s with
  | nil => exact ⟨rfl, rfl⟩
  | cons k turns ih =>
    have hupdate : (fun j => Function.update ts (f k) ((ts (f k)).advance s).1 (f j)) =
        Function.update (fun j => ts (f j)) k ((ts (f k)).advance s).1 :=
      Function.update_comp_eq_of_injective ts hf k _
    rw [List.map_cons, interleave, interleave, ← hupdate]
    exact ih _ _

/-- A task that waits for its turn: it keeps to its terms whatever has happened meanwhile. -/
def Waits (c : Terms σ ω) (post : Except ε α → ω → Prop) (t : Task σ ε α) (w : ω) : Prop :=
  ∀ w', c.rely w w' → t.Upholds c post w'

theorem Waits.outcome {c : Terms σ ω} {post : Except ε α → ω → Prop} {t : Task σ ε α} {w : ω} {r : Except ε α}
    (h : t.Waits c post w) (hrefl : c.rely w w) (hr : t.outcome? = some r) : post r w := by
  have ht := h w hrefl
  cases t <;> cases hr <;> exact ht

/-- **One turn.**  A task that keeps to its terms goes to its next pause by changes that it guarantees, and waits there. -/
theorem Upholds.advance {c : Terms σ ω} {post : Except ε α → ω → Prop}
    (hstable : ∀ r w w', post r w → c.rely w w' → post r w') :
    ∀ {t : Task σ ε α} {w : ω}, t.Upholds c post w →
      ∃ w', c.see w' = (t.advance (c.see w)).2 ∧ Relation.ReflTransGen c.guar w w' ∧
        (t.advance (c.see w)).1.Waits c post w'
  | done _, w, h => ⟨w, rfl, .refl, fun w' hr => hstable _ w w' h hr⟩
  | fail _, w, h => ⟨w, rfl, .refl, fun w' hr => hstable _ w w' h hr⟩
  | look k, w, h => Upholds.advance hstable (t := k (c.see w)) h
  | put s k, w, h => by
    obtain ⟨w₁, rfl, hg, h⟩ := h
    obtain ⟨w', hs, hpath, hw⟩ := Upholds.advance hstable h
    exact ⟨w', hs, .head hg hpath, hw⟩
  | pause _ _, w, h => ⟨w, rfl, .refl, h⟩

/-- **A task that is run alone** does what it guarantees and ends as it should. -/
theorem Upholds.run {c : Terms σ ω} {post : Except ε α → ω → Prop} (hrefl : ∀ w, c.rely w w) :
    ∀ {t : Task σ ε α} {w : ω}, t.Upholds c post w →
      ∃ w', c.see w' = (t.run (c.see w)).2 ∧ Relation.ReflTransGen c.guar w w' ∧ post (t.run (c.see w)).1 w'
  | done _, w, h => ⟨w, rfl, .refl, h⟩
  | fail _, w, h => ⟨w, rfl, .refl, h⟩
  | look k, w, h => Upholds.run hrefl (t := k (c.see w)) h
  | put s k, w, h => by
    obtain ⟨w₁, rfl, hg, h⟩ := h
    obtain ⟨w', hs, hpath, hw⟩ := Upholds.run hrefl h
    exact ⟨w', hs, .head hg hpath, hw⟩
  | pause _ k, w, h => Upholds.run hrefl (t := k) (h w (hrefl w))

/-- **A task that nobody interrupts** upholds what its run comes to. -/
theorem upholds_alone {P : Except ε α → σ → Prop} : ∀ {t : Task σ ε α} {s : σ}, P (t.run s).1 (t.run s).2 →
    t.Upholds ⟨id, Eq, fun _ _ => True⟩ P s
  | done _, _, h => h
  | fail _, _, h => h
  | look k, s, h => upholds_alone (t := k s) h
  | put s k, _, h => ⟨s, rfl, trivial, upholds_alone (t := k) h⟩
  | pause _ k, s, h => fun s' hs => by
    subst hs
    exact upholds_alone (t := k) h

-- What a task upholds is found by the rules above; opening a handler for it would carry the handler out.
attribute [irreducible] Upholds

section Turns

variable [DecidableEq ι] {see : ω → σ} {rely guar : ι → ω → ω → Prop} {post : ι → Except ε α → ω → Prop}

abbrev termsOf (see : ω → σ) (rely guar : ι → ω → ω → Prop) (i : ι) : Terms σ ω := ⟨see, rely i, guar i⟩

/-- **Tasks on terms that fit keep to them in every order of their turns.**  Where what each task guarantees is what every
other one relies on, each waits on its terms behind any turns that are taken, and the world has changed only as some task
guarantees. -/
theorem interleave_upholds (htrans : ∀ i w₁ w₂ w₃, rely i w₁ w₂ → rely i w₂ w₃ → rely i w₁ w₃)
    (hrefl : ∀ i w, rely i w w) (hfit : ∀ i j w w', i ≠ j → guar i w w' → rely j w w')
    (hstable : ∀ i r w w', post i r w → rely i w w' → post i r w') (turns : List ι) {ts : ι → Task σ ε α} {w : ω}
    (h : ∀ i, (ts i).Waits (termsOf see rely guar i) (post i) w) :
    ∃ w', see w' = (interleave turns ts (see w)).2 ∧ Relation.ReflTransGen (fun a b => ∃ i ∈ turns, guar i a b) w w' ∧
      ∀ i, ((interleave turns ts (see w)).1 i).Waits (termsOf see rely guar i) (post i) w' := by
  induction turns generalizing ts w with
  | nil => exact ⟨w, rfl, .refl, h⟩
  | cons i turns ih =>
    obtain ⟨w₁, hs, hpath, hwait⟩ := (h i w (hrefl i w)).advance (hstable i)
    have hrely (j : ι) (hj : i ≠ j) : rely j w w₁ := by
      clear hs hwait
      induction hpath with
      | refl => exact hrefl j w
      | tail _ hg ih => exact htrans j _ _ _ ih (hfit i j _ _ hj hg)
    have hnext (j : ι) : (Function.update ts i ((ts i).advance (see w)).1 j).Waits (termsOf see rely guar j) (post j) w₁ := by
      by_cases hj : j = i
      · subst hj
        rw [Function.update_self]
        exact hwait
      · rw [Function.update_of_ne hj]
        exact fun w' hr => h j w' (htrans j _ _ _ (hrely j (Ne.symm hj)) hr)
    obtain ⟨w', hs', hpath', hwaits⟩ := ih hnext
    rw [interleave, ← hs]
    refine ⟨w', hs', ?_, hwaits⟩
    refine Relation.ReflTransGen.trans (Relation.ReflTransGen.mono (fun a b hg => ?_) _ _ hpath)
      (Relation.ReflTransGen.mono (fun a b hg => ?_) _ _ hpath')
    · exact ⟨i, List.mem_cons_self, hg⟩
    · obtain ⟨j, hj, hg⟩ := hg
      exact ⟨j, List.mem_cons_of_mem _ hj, hg⟩

end Turns

end Task

end Switchboard
