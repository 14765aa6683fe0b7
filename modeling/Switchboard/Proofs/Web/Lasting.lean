import Switchboard.Proofs.Web.LateReports
/-!
# Changes that last

A change of a segment is made on the row as it is when the change is written, whatever others do meanwhile.  So what the
change makes of every segment of a kind, and no write takes back, the segment on record shows from then on
(`upholds_mutate`).
-/
namespace Switchboard

open Segment (Deed)
open Store (Chained chainOf sameId isAt CallRow.overwrite)
open Relation (ReflTransGen)

/-- Terms of work beside which anything may go on. -/
abbrev State.amidst (guar : State → State → Prop) : Terms State State := State.terms (ReflTransGen State.Links) guar

/-- A change that asks nothing of the providers. -/
def State.Unasked (st st' : State) : Prop := st'.requests = st.requests

/-! ## Steps -/

namespace State

variable {st st' : State} {s : Segment} {sid : String} {number : Int} {P Q : Segment → Prop}

theorem links_of_aside (h : st.Aside st') : st.Links st' := ⟨.of_aside h, chaining.aside h⟩

theorem links_contend (st : State) (id : String) (n : Nat) :
    st.Links { st with conflicts := n, store := st.store.updateCalls (fun r => sameId r.segment.id id) CallRow.written } := by
  refine ⟨?_, chaining.contends st id n⟩
  have hwrite : Scope.crowd.Step st
      { st with store := st.store.updateCalls (fun r => sameId r.segment.id id) CallRow.written } :=
    .of_updateCalls (fun _ => rfl) fun _ _ _ => ⟨rfl, .columns [] rfl⟩
  exact hwrite.trans (.of_aside ⟨rfl, rfl, rfl, rfl, rfl⟩)

/-- **A conditional write** is a step, where the row is the one that was read. -/
theorem links_write {d : Deed} (hrow : ∀ r ∈ st.store.calls, isAt (s.did d).id s.revision r = true → r.read = .ok s) :
    st.Links { st with
      store := st.store.updateCalls (isAt (s.did d).id s.revision) (CallRow.overwrite (s.did d)) } :=
  ⟨.of_updateCalls (fun _ => rfl) fun r hr hat => ⟨rfl, .deed d (hrow r hr hat) fun _ _ => .inl trivial⟩,
    chaining_writes (fun s => s.did d) st s⟩

theorem saw_of_links (h : ReflTransGen State.Links st st') (hst : st.store.Identified ∧ Chained st.store)
    (hsaw : Scope.crowd.Saw st s) : Scope.crowd.Saw st' s := by
  induction h with
  | refl => exact hsaw
  | tail hrun hstep ih => exact (hstep.1 (Scope.everybody_sound (chained_of_links hrun hst).1)).2.saw ih

/-- What is known while work goes on beside others: the segment on record is of a kind that lasts. -/
def Showing (st : State) (sid : String) (number : Int) (P : Segment → Prop) : Prop :=
  (st.store.Identified ∧ Chained st.store) ∧ st.Shows sid number P

/-- An attempt of a segment was started, or a later one. -/
def Started (st : State) (sid : String) (number seq : Int) : Prop :=
  st.Shows sid number fun s => seq ≤ s.scratch.attemptSeq

theorem Showing.links (h : ReflTransGen State.Links st st') (hP : CallRow.Lasting P) (hs : st.Showing sid number P) :
    st'.Showing sid number P :=
  ⟨chained_of_links h hs.1, shows_of_links h hs.1 hP hs.2⟩

theorem Showing.mono (hPQ : ∀ s, P s → Q s) (hs : st.Showing sid number P) : st.Showing sid number Q :=
  ⟨hs.1, hs.2.imp fun s h => ⟨h.1, hPQ s h.2⟩⟩

end State

/-- The manner of work that keeps the segment on record of a kind that lasts. -/
def showing {P : Segment → Prop} (hP : CallRow.Lasting P) (sid : String) (number : Int) : Manner where
  rely := ReflTransGen State.Links
  guar st st' := st.Showing sid number P → st'.Showing sid number P
  inv st := st.Showing sid number P
  lasts hs h := h.elim (fun h => hs.links h hP) fun h => h hs
  aside h hs := hs.links (.single (State.links_of_aside h)) hP
  contends st id n hs := hs.links (.single (State.links_contend st id n)) hP

theorem showing_moves {P : Segment → Prop} (hP : CallRow.Lasting P) (sid : String) (number : Int) :
    (showing hP sid number).Moves := fun _ _ _ _ hs => hs

/-- What is known while a segment on record is of a kind that lasts, and anything may go on. -/
def Watch.showing {P : Segment → Prop} (hP : CallRow.Lasting P) (sid : String) (number : Int) : Watch where
  rely := ReflTransGen State.Links
  inv st := st.Showing sid number P
  lasts hs h := hs.links h hP

theorem Watch.showing_reads {P : Segment → Prop} (hP : CallRow.Lasting P) (sid : String) (number : Int) :
    (Watch.showing hP sid number).Reads sid number P := by
  rintro st ⟨hst, s, hs, hPs⟩
  obtain ⟨r, hrow, hread⟩ := hs.segmentRow hst.2
  exact ⟨r, s, hrow, hread, hPs⟩

/-! ## Changes beside others -/

namespace Work

variable {α : Type} {st : State} {sid : String} {number : Int} {P Q : Segment → Prop}

/-- **A segment that is looked up** was on record then, and was seen. -/
theorem upholds_segment? (hP : CallRow.Lasting P) (hst : st.Showing sid number P) :
    (segment? sid number none).Upholds (State.amidst State.Unasked)
      (fun found st' => st'.Showing sid number P ∧ ∀ a, found = .ok a → ∃ s, a = some s ∧ P s ∧ Scope.crowd.Saw st' s ∧
        s.rootSid = Naming.root sid ∧ s.number = number ∧
        ∀ Q, CallRow.Lasting Q → Q s → st'.Showing sid number Q) st := by
  obtain ⟨s, hrecords, hPs⟩ := hst.2
  obtain ⟨r, hrow, hread⟩ := hrecords.segmentRow hst.1.2
  have hmem : r ∈ st.store.calls := List.mem_of_find?_eq_some hrow
  have hkey := CallRow.key_of_read hread
  have hfound := List.find?_some hrow
  simp only [Bool.and_eq_true, decide_eq_true_eq] at hfound
  have hsaw : Scope.crowd.Saw st s := (Scope.everybody_sound hst.1.1).saw hmem hread
  refine Task.Upholds.bind (P := fun row st' => ReflTransGen State.Links st st' ∧ ∀ a, row = .ok a → a = some r)
    (fun a st' h => ?_) (fun e st' h => ⟨hst.links h.1 hP, fun _ h => nomatch h⟩)
    (upholds_statement (fun a db hok => ⟨st, ?_, rfl, fun st' hr => ⟨hr, ?_⟩⟩) ⟨.refl, fun _ h => nomatch h⟩
      fun _ => ⟨.refl, fun _ h => nomatch h⟩)
  · rw [h.2 a rfl]
    refine Task.Upholds.bind (P := fun t st₂ => t = .ok s ∧ st₂ = st') (fun t st₂ ht => ?_) (fun e st₂ ht => nomatch ht.1) ?_
    · obtain ⟨ht, rfl⟩ := ht
      cases ht
      refine Task.upholds_pure.2 ⟨hst.links h.1 hP, fun a ha => ?_⟩
      cases ha
      exact ⟨s, rfl, hPs, State.saw_of_links h.1 hst.1 hsaw, (congrArg Segment.Key.rootSid hkey).symm.trans hfound.1.1,
        (congrArg Segment.Key.number hkey).symm.trans hfound.1.2,
        fun Q hQ hQs => State.Showing.links h.1 hQ ⟨hst.1, s, hrecords, hQs⟩⟩
    · refine Task.upholds_ofExcept.2 ⟨?_, rfl⟩
      rw [hread]
      rfl
  · split at hok
    · cases hok
      rfl
    · cases hok
  · intro b hb
    cases hb
    split at hok
    · cases hok
      exact hrow
    · cases hok

theorem upholds_contend (st : State) (id : String) :
    (contend id).Upholds (State.amidst State.Unasked) (fun _ st' => ReflTransGen State.Links st st') st := by
  refine Task.upholds_update.2 ⟨_, rfl, ?_⟩
  split
  · exact ⟨rfl, .refl⟩
  · exact ⟨rfl, .single (State.links_contend st id _)⟩

/-- **A conditional write that comes in time** leaves the segment on record of the kind that the deed makes it, and one that
comes late leaves it to the next try. -/
theorem upholds_writeAt {d : Deed} {s : Segment} (hP : CallRow.Lasting P) (hQ : CallRow.Lasting Q) (hdid : Q (s.did d))
    (hsaw : Scope.crowd.Saw st s) (hroot : s.rootSid = Naming.root sid) (hnumber : s.number = number)
    (hst : st.Showing sid number P) :
    (statement (Store.writeAt (s.did d) s.revision)).Upholds (State.amidst State.Unasked)
      (fun row st' => st'.Showing sid number P ∧ ∀ r, row = .ok (some r) → st'.Showing sid number Q) st := by
  have hrow (r : CallRow) (hr : r ∈ st.store.calls) (hat : isAt (s.did d).id s.revision r = true) :
      r.segment.key = s.key ∧ r.read = .ok s := hsaw.of_isAt (Scope.everybody_sound hst.1.1) hr hat
  have hlinks := State.links_write (d := d) fun r hr hat => (hrow r hr hat).2
  refine upholds_statement (fun row db hok => ?_) ⟨hst, fun _ h => by cases h⟩ fun _ => ⟨hst, fun _ h => by cases h⟩
  unfold Store.writeAt at hok
  split at hok
  · cases hok
  · cases hok
    refine ⟨_, rfl, rfl, fun st' hr => ⟨(hst.links (.single hlinks) hP).links hr hP, fun w hw => ?_⟩⟩
    obtain ⟨r, hfind, -⟩ := Option.map_eq_some_iff.1 (Except.ok.inj hw)
    have hmem := List.mem_of_find?_eq_some hfind
    have hat := List.find?_some hfind
    obtain ⟨hkey, hread⟩ := hrow r hmem hat
    have hwritten : (CallRow.overwrite (s.did d) r).read = .ok ((s.did d).revised (s.revision + 1)) :=
      CallRow.read_overwrite hread (Segment.overwriting_did s d)
    refine State.Showing.links hr hQ ⟨hlinks.chained hst.1, _, ⟨CallRow.overwrite (s.did d) r, ?_, ?_, hwritten⟩, ?_⟩
    · exact Store.mem_chainOf.2 ⟨List.mem_map.2 ⟨r, hmem, if_pos hat⟩,
        (congrArg Segment.Key.rootSid hkey).trans hroot⟩
    · exact (congrArg Segment.Key.number hkey).trans hnumber
    · have hrevision : (s.did d).revision = s.revision := by
        rw [← Segment.overwriting_did]
        rfl
      exact hrevision ▸ hQ.revised hdid

/-- **What a change makes of every segment of a kind, the segment on record shows** behind the change, whatever others do
meanwhile; the change gives what it gives of such a segment, and asks nothing. -/
theorem upholds_mutate {f : Segment → Segment × α} (d : Deed) (hf : ∀ s, (f s).1 = s.did d) (hP : CallRow.Lasting P)
    (hQ : CallRow.Lasting Q) (hdid : ∀ s, P s → Q (s.did d)) (hst : st.Showing sid number P) :
    (mutate sid number none f).Upholds (State.amidst State.Unasked)
      (fun r st' => ∀ a, r = .ok a → st'.Showing sid number Q ∧ ∃ s t, P s ∧ a = some (t, (f s).2)) st := by
  unfold mutate
  generalize mutateTries = tries
  -- By induction on the tries that are left: behind one that comes too late the segment still is of the kind.
  induction tries generalizing st with
  | zero => exact Task.upholds_fail.2 fun _ h => nomatch h
  | succ tries ih =>
    refine Task.Upholds.bind (fun a st₁ h => ?_) (fun _ _ _ _ h => nomatch h) (upholds_segment? hP hst)
    obtain ⟨hst₁, hfound⟩ := h
    obtain ⟨s, rfl, hPs, hsaw, hroot, hnumber, hshows⟩ := hfound a rfl
    refine Task.upholds_interrupt_bind.2 fun st₂ hr₂ => ?_
    dsimp only
    rw [Option.any_none, if_neg Bool.false_ne_true, hf s]
    split
    · rename_i hsame
      have hQs : Q s := hsame ▸ hdid s hPs
      exact Task.upholds_pure.2 fun a ha => ⟨(hshows Q hQ hQs).links hr₂ hQ, s, s, hPs, (Except.ok.inj ha).symm⟩
    · refine Task.Upholds.bind (fun _ st₃ hr₃ => ?_) (fun _ _ _ _ h => nomatch h) (upholds_contend st₂ s.id)
      have hr := hr₂.trans hr₃
      refine Task.Upholds.bind (fun row st₄ h => ?_) (fun _ _ _ _ h => nomatch h)
        (upholds_writeAt hP hQ (hdid s hPs) (State.saw_of_links hr hst₁.1 hsaw) hroot hnumber (hst₁.links hr hP))
      cases row with
      | none => exact ih h.1
      | some row =>
        refine Task.Upholds.bind (P := fun _ st₅ => st₅ = st₄) (fun t st₅ heq => ?_) (fun _ _ _ _ h => nomatch h)
          (Task.upholds_ofExcept.2 rfl)
        exact Task.upholds_pure.2 fun a ha => ⟨heq ▸ h.2 row rfl, s, t, hPs, (Except.ok.inj ha).symm⟩

/-- **A change and what follows from it**, beside others. -/
theorem upholds_changed {β : Type} {f : Segment → Segment × α} {k : Option (Segment × α) → Work β} (d : Deed)
    (hf : ∀ s, (f s).1 = s.did d) (hP : CallRow.Lasting P) (hQ : CallRow.Lasting Q) (hdid : ∀ s, P s → Q (s.did d))
    (hk : ∀ p, (showing hQ sid number).Makes (k (some p)) fun _ => True) (hst : st.Showing sid number P) :
    (mutate sid number none f >>= k).Upholds (State.amidst fun _ _ => True)
      (fun r st' => ∀ b, r = .ok b → st'.Showing sid number Q) st := by
  refine Task.Upholds.bind (fun a st' h => ?_) (fun _ _ _ _ h => nomatch h)
    ((upholds_mutate d hf hP hQ hdid hst).of_terms (fun _ _ h => h) fun _ _ _ => trivial)
  obtain ⟨hshowing, s, t, -, rfl⟩ := h a rfl
  exact Task.Upholds.mono (fun _ _ h _ _ => h.2)
    (((hk _).upholds st' hshowing).of_terms (fun _ _ h => h) fun _ _ _ => trivial)

end Work

end Switchboard
