import Switchboard.Call.Attempt
import Switchboard.Proofs.Service.Asides
import Switchboard.Proofs.Store.Rows
/-!
# Changes of one segment, one after another

Any number of calls change one segment at the same time: by `mutate`, by updates of columns, by handing the call on.
Whatever the order in which they take turns, the segment is what they make of it one after another
(`mutate_serializable`).  The place of a call is where it writes, or, where it changes nothing, where it reads.

The proof keeps the order so far beside the state (`Recorded`).  A call that reads a segment at some revision and finds the
same revision when it writes finds the same segment, since every write counts (`replay_eq_of_revision`).
-/
namespace Switchboard

open Time (Instant)

/-- A call that changes one segment. -/
inductive RowCall (α : Type) where
  /-- A change that is computed from the segment and written back if nobody else wrote meanwhile. -/
  | mutate (sid : String) (tenant : Option String) (f : Segment → Segment × α)
  /-- An update of columns. -/
  | update (id : String) (changes : List Store.Change)
  /-- The handing on of the call. -/
  | handOver (active : Segment) (h : Store.Handover) (scratch : Scratch)

namespace RowCall

variable {α ι : Type}

/-- What serves a call: the segment behind it and what it gives; nothing where there is no segment that it may change. -/
def task (number : Int) : RowCall α → Work (Option (Segment × Option α))
  | .mutate sid tenant f => do return (← Work.mutate sid number tenant f).map fun p => (p.1, some p.2)
  | .update id changes => do return (← Work.updateCall id changes).map fun s => (s, none)
  | .handOver active h scratch => do return some ((← Work.handOver active h scratch).1, none)

/-- A call about a segment; what `mutate` computes changes what a conditional write stores. -/
def IsAbout (s : Segment) : RowCall α → Prop
  | .mutate sid _ f => Naming.root sid = s.rootSid ∧ ∀ t : Segment, t.overwriting (f t).1 = (f t).1
  | .update id _ => Store.sameId id s.id = true
  | .handOver active _ _ => Store.sameId active.id s.id = true

/-- What a call makes of a segment, and what it gives, where nobody else changes the segment. -/
def apply (now : Instant) (s : Segment) : RowCall α → Segment × Option α
  | .mutate _ _ f => (if (f s).1 = s then s else (f s).1.revised (s.revision + 1), some (f s).2)
  | .update _ changes => (s.changed changes, none)
  | .handOver _ h _ => (s.handedOn h now, none)

/-- What some calls make of a segment, one after another. -/
def replay (now : Instant) (calls : ι → RowCall α) (order : List ι) (s : Segment) : Segment :=
  order.foldl (fun s i => ((calls i).apply now s).1) s

theorem replay_append (now : Instant) (calls : ι → RowCall α) (earlier later : List ι) (s : Segment) :
    replay now calls (earlier ++ later) s = replay now calls later (replay now calls earlier s) := List.foldl_append

theorem apply_revision (now : Instant) (c : RowCall α) (s : Segment) :
    (c.apply now s).1 = s ∨ (c.apply now s).1.revision = s.revision + 1 := by
  cases c with
  | mutate sid tenant f =>
    dsimp only [apply]
    split
    · exact .inl rfl
    · exact .inr rfl
  | update id changes => exact .inr rfl
  | handOver active h scratch => exact .inr rfl

theorem apply_id {c : RowCall α} {s t : Segment} (hc : c.IsAbout t) (now : Instant) :
    (c.apply now s).1.id = s.id ∧ (c.apply now s).1.rootSid = s.rootSid ∧ (c.apply now s).1.number = s.number := by
  cases c with
  | mutate sid tenant f =>
    dsimp only [apply]
    split
    · exact ⟨rfl, rfl, rfl⟩
    · have hover := hc.2 s
      exact ⟨(congrArg Segment.id hover).symm, (congrArg Segment.rootSid hover).symm, (congrArg Segment.number hover).symm⟩
  | update id changes => exact Segment.changed_key s changes
  | handOver active h scratch => exact Segment.changed_key s _

theorem replay_key {calls : ι → RowCall α} {s : Segment} (hcalls : ∀ i, (calls i).IsAbout s) (now : Instant)
    (order : List ι) : ∀ t : Segment, (replay now calls order t).id = t.id ∧
      (replay now calls order t).rootSid = t.rootSid ∧ (replay now calls order t).number = t.number := by
  induction order with
  | nil => exact fun t => ⟨rfl, rfl, rfl⟩
  | cons i rest ih =>
    intro t
    obtain ⟨h₁, h₂, h₃⟩ := ih ((calls i).apply now t).1
    obtain ⟨g₁, g₂, g₃⟩ := apply_id (hcalls i) now (s := t)
    exact ⟨h₁.trans g₁, h₂.trans g₂, h₃.trans g₃⟩

/-- How many of some calls write. -/
def writes (now : Instant) (calls : ι → RowCall α) : List ι → Segment → Nat
  | [], _ => 0
  | i :: rest, s =>
    (if ((calls i).apply now s).1 = s then 0 else 1) + writes now calls rest ((calls i).apply now s).1

/-- **The revision counts the writes.** -/
theorem replay_revision (now : Instant) (calls : ι → RowCall α) (order : List ι) :
    ∀ s : Segment, (replay now calls order s).revision = s.revision + writes now calls order s := by
  induction order with
  | nil => exact fun s => (Int.add_zero _).symm
  | cons i rest ih =>
    intro s
    refine (ih ((calls i).apply now s).1).trans ?_
    rw [writes]
    split
    · rename_i hsame
      rw [hsame]
      omega
    · rename_i hne
      have := (apply_revision now (calls i) s).resolve_left hne
      omega

theorem le_replay_revision (now : Instant) (calls : ι → RowCall α) (order : List ι) (s : Segment) :
    s.revision ≤ (replay now calls order s).revision := by
  have := replay_revision now calls order s
  omega

/-- **At the same revision a segment is the same.** -/
theorem replay_eq_of_revision (now : Instant) (calls : ι → RowCall α) (order : List ι) :
    ∀ s : Segment, (replay now calls order s).revision = s.revision → replay now calls order s = s := by
  induction order with
  | nil => exact fun _ _ => rfl
  | cons i rest ih =>
    intro s h
    change (replay now calls rest ((calls i).apply now s).1).revision = s.revision at h
    have hle := le_replay_revision now calls rest ((calls i).apply now s).1
    rcases apply_revision now (calls i) s with hsame | hnext
    · rw [hsame] at h
      change replay now calls rest ((calls i).apply now s).1 = s
      rw [hsame]
      exact ih s h
    · omega

/-! ## The order so far -/

section Turns

variable {now : Instant} {calls : ι → RowCall α} {s : Segment}

/-- The state holds what the calls of an order made of the segment, each of them once. -/
structure Recorded (now : Instant) (calls : ι → RowCall α) (s : Segment) (w : List ι × State) : Prop where
  nodup : w.1.Nodup
  has : w.2.store.Has (replay now calls w.1 s)
  time : w.2.now = now
  calm : w.2.conflicts = 0

theorem recorded_nil {st : State} (hst : st.store.Has s) (hcalm : st.conflicts = 0) :
    Recorded st.now calls s ([], st) := ⟨List.nodup_nil, hst, rfl, hcalm⟩

/-- What a call relies on: the others go on with the order, and none of them writes in its name. -/
def Relies (now : Instant) (calls : ι → RowCall α) (s : Segment) (i : ι) (w w' : List ι × State) : Prop :=
  Recorded now calls s w → Recorded now calls s w' ∧ ∃ more, w'.1 = w.1 ++ more ∧ i ∉ more

theorem Relies.refl (i : ι) (w : List ι × State) : Relies now calls s i w w :=
  fun hw => ⟨hw, [], (List.append_nil _).symm, fun h => nomatch h⟩

theorem Relies.trans (i : ι) (w₁ w₂ w₃ : List ι × State) (h : Relies now calls s i w₁ w₂)
    (h' : Relies now calls s i w₂ w₃) : Relies now calls s i w₁ w₃ := by
  intro hw
  obtain ⟨hw₂, more, hmore, hi⟩ := h hw
  obtain ⟨hw₃, more', hmore', hi'⟩ := h' hw₂
  refine ⟨hw₃, more ++ more', by rw [hmore', hmore, List.append_assoc], fun hmem => ?_⟩
  exact (List.mem_append.mp hmem).elim hi hi'

/-- What a call guarantees: it goes on with the order in its own name. -/
def Guarantees (now : Instant) (calls : ι → RowCall α) (s : Segment) (i : ι) (w w' : List ι × State) : Prop :=
  Recorded now calls s w → Recorded now calls s w' ∧ ∃ more, w'.1 = w.1 ++ more ∧ ∀ j ∈ more, j = i

abbrev turn (now : Instant) (calls : ι → RowCall α) (s : Segment) (i : ι) : Terms State (List ι × State) :=
  Task.termsOf Prod.snd (Relies now calls s) (Guarantees now calls s) i

/-- A call has its place in the order, behind calls that made `t` of the segment. -/
def Placed (now : Instant) (calls : ι → RowCall α) (s : Segment) (i : ι) (t : Segment) (order : List ι) : Prop :=
  ∃ earlier later, order = earlier ++ i :: later ∧ replay now calls earlier s = t

theorem Placed.append {i : ι} {t : Segment} {order : List ι} (h : Placed now calls s i t order) (more : List ι) :
    Placed now calls s i t (order ++ more) := by
  obtain ⟨earlier, later, rfl, ht⟩ := h
  exact ⟨earlier, later ++ more, by simp, ht⟩

theorem placed_last (i : ι) (order : List ι) : Placed now calls s i (replay now calls order s) (order ++ [i]) :=
  ⟨order, [], rfl, rfl⟩

/-- How a call has ended: it has its place and gives what it makes of the segment there, or it wrote nothing.  One that
gave up has met five writes since the revision was `start`. -/
def Ended (now : Instant) (calls : ι → RowCall α) (s : Segment) (start : Int) (i : ι)
    (r : Except Fault (Option (Segment × Option α))) (w : List ι × State) : Prop :=
  Recorded now calls s w ∧
    match r with
    | .ok (some p) => ∃ t, Placed now calls s i t w.1 ∧ p = (calls i).apply now t
    | .ok none => i ∉ w.1
    | .error e => i ∉ w.1 ∧ ∀ sid number, e = .keepsChanging sid number → start + 5 ≤ (replay now calls w.1 s).revision

/-- **How a call has ended stays so**, whatever the others do. -/
theorem Ended.rely {start : Int} {i : ι} {r : Except Fault (Option (Segment × Option α))} {w w' : List ι × State}
    (h : Ended now calls s start i r w) (hr : Relies now calls s i w w') : Ended now calls s start i r w' := by
  obtain ⟨hw, h⟩ := h
  obtain ⟨hw', more, hmore, hi⟩ := hr hw
  refine ⟨hw', ?_⟩
  match r with
  | .ok (some p) =>
    obtain ⟨t, hplaced, hp⟩ := h
    exact ⟨t, hmore ▸ hplaced.append more, hp⟩
  | .ok none => exact hmore ▸ fun hmem => (List.mem_append.mp hmem).elim h hi
  | .error e =>
    refine ⟨hmore ▸ fun hmem => (List.mem_append.mp hmem).elim h.1 hi, fun sid number he => ?_⟩
    have := h.2 sid number he
    have := le_replay_revision now calls more (replay now calls w.1 s)
    rw [hmore, replay_append]
    omega

theorem Recorded.stay {w : List ι × State} {i : ι} : Guarantees now calls s i w w :=
  fun hw => ⟨hw, [], (List.append_nil _).symm, fun _ h => nomatch h⟩

/-- A call that takes its place: the state holds what it makes of the segment. -/
theorem Recorded.take {w : List ι × State} {i : ι} {db : Store} (hw : Recorded now calls s w) (hi : i ∉ w.1)
    (hdb : db.Has ((calls i).apply now (replay now calls w.1 s)).1) :
    Recorded now calls s (w.1 ++ [i], { w.2 with store := db }) := by
  refine ⟨?_, ?_, hw.time, hw.calm⟩
  · rw [List.nodup_append]
    refine ⟨hw.nodup, by simp, fun a ha b hb => ?_⟩
    rw [List.mem_singleton.mp hb]
    exact fun h => hi (h ▸ ha)
  · rw [replay_append]
    exact hdb

theorem Recorded.guarantees_take {w : List ι × State} {i : ι} {db : Store} (hw : Recorded now calls s w) (hi : i ∉ w.1)
    (hdb : db.Has ((calls i).apply now (replay now calls w.1 s)).1) :
    Guarantees now calls s i w (w.1 ++ [i], { w.2 with store := db }) :=
  fun _ => ⟨hw.take hi hdb, [i], rfl, fun _ hj => List.mem_singleton.mp hj⟩

/-! ## One call -/

/-- What a call that has read the segment as `t` knows: it has its place where it changes nothing, and otherwise it has
none and the segment is `t` as long as the revision is that of `t`. -/
def Knows (now : Instant) (calls : ι → RowCall α) (s : Segment) (i : ι) (t : Segment) (changes : Prop)
    (w : List ι × State) : Prop :=
  Recorded now calls s w ∧ (¬ changes → Placed now calls s i t w.1) ∧
    (changes → i ∉ w.1 ∧ ∃ more, replay now calls more t = replay now calls w.1 s)

theorem Knows.rely {i : ι} {t : Segment} {changes : Prop} {w w' : List ι × State} (h : Knows now calls s i t changes w)
    (hr : Relies now calls s i w w') : Knows now calls s i t changes w' := by
  obtain ⟨hw, hsame, hchanges⟩ := h
  obtain ⟨hw', more, hmore, hi⟩ := hr hw
  refine ⟨hw', fun hc => hmore ▸ (hsame hc).append more, fun hc => ?_⟩
  obtain ⟨hnot, others, hothers⟩ := hchanges hc
  refine ⟨hmore ▸ fun hmem => (List.mem_append.mp hmem).elim hnot hi, others ++ more, ?_⟩
  rw [hmore, replay_append, replay_append, hothers]

/-- At the revision at which it was read the segment is as it was read. -/
theorem Knows.current {i : ι} {t : Segment} {changes : Prop} {w : List ι × State} (h : Knows now calls s i t changes w)
    (hc : changes) (hrevision : (replay now calls w.1 s).revision = t.revision) : replay now calls w.1 s = t := by
  obtain ⟨-, others, hothers⟩ := h.2.2 hc
  rw [← hothers] at hrevision ⊢
  exact replay_eq_of_revision now calls others t hrevision

theorem Knows.le_revision {i : ι} {t : Segment} {changes : Prop} {w : List ι × State}
    (h : Knows now calls s i t changes w) (hc : changes) : t.revision ≤ (replay now calls w.1 s).revision := by
  obtain ⟨-, others, hothers⟩ := h.2.2 hc
  rw [← hothers]
  exact le_replay_revision now calls others t

variable {i : ι} (start : Int)

/-- Whether a change has something to write to a segment, or may not write to it. -/
def Differs (tenant : Option String) (f : Segment → Segment × α) (t : Segment) : Prop :=
  tenant.any (fun o => o != t.tenantId) = true ∨ (f t).1 ≠ t

theorem upholds_segment? {sid : String} {tenant : Option String} {f : Segment → Segment × α}
    (hcall : calls i = .mutate sid tenant f) (hroot : Naming.root sid = s.rootSid) (hcalls : ∀ i, (calls i).IsAbout s)
    {w : List ι × State} (hw : Recorded now calls s w) (hi : i ∉ w.1) :
    (Work.segment? sid s.number none).Upholds (turn now calls s i)
      (fun r w' => match r with
        | .ok found => ∃ t, found = some t ∧ Knows now calls s i t (Differs tenant f t) w' ∧
            (replay now calls w.1 s).revision ≤ t.revision
        | .error e => Ended now calls s start i (.error e) w') w := by
  let t := replay now calls w.1 s
  have herror (e : Fault) (he : ∀ sid number, e ≠ .keepsChanging sid number) : Ended now calls s start i (.error e) w :=
    ⟨hw, hi, fun sid number h => absurd h (he sid number)⟩
  obtain ⟨row, hrow, hread⟩ := hw.has.stored
  obtain ⟨-, hkeyroot, hkeynumber⟩ := replay_key hcalls now w.1 s
  rw [hkeyroot, hkeynumber] at hrow
  refine Task.Upholds.bind (P := fun r w' => match r with
    | .ok found => found = some row ∧ Knows now calls s i t (Differs tenant f t) w'
    | .error e => Ended now calls s start i (.error e) w') (fun found w' h => ?_) (fun e w' h => h)
    (Work.upholds_statement (fun found db h => ?_) (herror _ fun _ _ h => nomatch h) fun _ => herror _ fun _ _ h => nomatch h)
  · obtain ⟨rfl, hknows⟩ := h
    have hsegment : Work.readRow? (some row) = pure (some t) := by
      rw [Work.readRow?, Work.readRow, hread]
      rfl
    rw [hsegment]
    exact Task.upholds_pure.mpr ⟨t, rfl, hknows, Int.le_refl _⟩
  · split at h
    · cases h
      rw [hroot]
      -- A call that changes nothing takes its place where it reads; any other takes it where it writes.
      by_cases hd : Differs tenant f t
      · refine ⟨w, rfl, Recorded.stay, fun w' hr => ⟨hrow, ?_⟩⟩
        exact Knows.rely ⟨hw, fun hc => absurd hd hc, fun _ => ⟨hi, [], rfl⟩⟩ hr
      · have hsame : (f t).1 = t := not_not.mp (not_or.mp hd).2
        have happly : ((calls i).apply now t).1 = t := by rw [hcall, apply, if_pos hsame]
        have hdb : w.2.store.Has ((calls i).apply now (replay now calls w.1 s)).1 := happly ▸ hw.has
        refine ⟨(w.1 ++ [i], w.2), rfl, hw.guarantees_take hi hdb, fun w' hr => ⟨hrow, ?_⟩⟩
        exact Knows.rely ⟨hw.take hi hdb, fun _ => placed_last i w.1, fun hc => absurd hc hd⟩ hr
    · cases h

/-- **The writing of a changed segment**: it is written where nobody else wrote since it was read, and otherwise somebody
did. -/
theorem upholds_writeAt {sid : String} {tenant : Option String} {f : Segment → Segment × α} {t : Segment}
    (hcall : calls i = .mutate sid tenant f) (hover : ∀ t : Segment, t.overwriting (f t).1 = (f t).1) (hne : (f t).1 ≠ t)
    (hcalls : ∀ i, (calls i).IsAbout s) {w : List ι × State} (hw : Knows now calls s i t (Differs tenant f t) w) :
    (Work.statement (Store.writeAt (f t).1 t.revision)).Upholds (turn now calls s i)
      (fun r w' => match r with
        | .ok (some row) => Recorded now calls s w' ∧ row.read = .ok ((f t).1.revised (t.revision + 1)) ∧
            Placed now calls s i t w'.1
        | .ok none => Recorded now calls s w' ∧ i ∉ w'.1 ∧ t.revision + 1 ≤ (replay now calls w'.1 s).revision
        | .error e => Ended now calls s start i (.error e) w') w := by
  have hdiffers : Differs tenant f t := .inr hne
  have hi : i ∉ w.1 := (hw.2.2 hdiffers).1
  have herror (e : Fault) (he : ∀ sid number, e ≠ .keepsChanging sid number) : Ended now calls s start i (.error e) w :=
    ⟨hw.1, hi, fun sid number h => absurd h (he sid number)⟩
  refine Work.upholds_statement (fun row db h => ?_) (herror _ fun _ _ h => nomatch h)
    fun _ => herror _ fun _ _ h => nomatch h
  have hfits : (f t).1.duration.all Store.fits = true := by
    by_contra hno
    rw [Store.writeAt, Bool.not_eq_true _ |>.mp hno] at h
    cases h
  by_cases hrevision : (replay now calls w.1 s).revision = t.revision
  · have hcurrent := hw.current hdiffers hrevision
    have hhas : w.2.store.Has t := hcurrent ▸ hw.1.has
    obtain ⟨row', db', hwrite, hread, hdb⟩ := hhas.writeAt (hover t) hfits
    cases hwrite.symm.trans h
    have happly : ((calls i).apply now (replay now calls w.1 s)).1 = (f t).1.revised (t.revision + 1) := by
      rw [hcurrent, hcall, apply, if_neg hne]
    have hdb : db.Has ((calls i).apply now (replay now calls w.1 s)).1 := happly ▸ hdb
    refine ⟨(w.1 ++ [i], { w.2 with store := db }), rfl, hw.1.guarantees_take hi hdb, fun w' hr => ?_⟩
    obtain ⟨hw', more, hmore, -⟩ := hr (hw.1.take hi hdb)
    exact ⟨hw', hread, hmore ▸ (hcurrent ▸ placed_last i w.1).append more⟩
  · have hkey : (f t).1.id = (replay now calls w.1 s).id := by
      obtain ⟨-, others, hothers⟩ := hw.2.2 hdiffers
      rw [← hothers, (replay_key hcalls now others t).1, ← hover t]
      rfl
    cases (hw.1.has.writeAt_late hkey hrevision hfits).symm.trans h
    refine ⟨w, rfl, Recorded.stay, fun w' hr => ?_⟩
    obtain ⟨hw', more, hmore, hnot⟩ := hr hw.1
    have hle := hw.le_revision hdiffers
    have hmono := le_replay_revision now calls more (replay now calls w.1 s)
    refine ⟨hw', hmore ▸ fun hmem => (List.mem_append.mp hmem).elim hi hnot, ?_⟩
    rw [hmore, replay_append]
    omega

def given (r : Except Fault (Option (Segment × α))) : Except Fault (Option (Segment × Option α)) :=
  r.map fun o => o.map fun p => (p.1, some p.2)

/-- **A change that is tried some times** takes its place at a try, or it has met a write at each. -/
theorem upholds_mutateWithin {sid : String} {tenant : Option String} {f : Segment → Segment × α}
    (hcall : calls i = .mutate sid tenant f) (hcalls : ∀ i, (calls i).IsAbout s) :
    ∀ (tries : Nat) {w : List ι × State}, Recorded now calls s w → i ∉ w.1 →
      start + Work.mutateTries ≤ (replay now calls w.1 s).revision + tries →
      (Work.mutateWithin sid s.number tenant f tries).Upholds (turn now calls s i)
        (fun r w' => Ended now calls s start i (given r) w') w
  | 0, w, hw, hi, hmet => Task.upholds_fail.mpr ⟨hw, hi, fun _ _ _ => by simpa [Work.mutateTries] using hmet⟩
  | tries + 1, w, hw, hi, hmet => by
    obtain ⟨hroot, hover⟩ : Naming.root sid = s.rootSid ∧ ∀ t : Segment, t.overwriting (f t).1 = (f t).1 := by
      have := hcalls i
      rw [hcall] at this
      exact this
    rw [Work.mutateWithin]
    refine Task.Upholds.bind ?_ (fun e w h => ?_) (upholds_segment? start hcall hroot hcalls hw hi)
    swap
    · exact h
    rintro found w ⟨t, rfl, hknows, hread⟩
    refine Task.upholds_interrupt_bind.mpr fun w hr => ?_
    have hknows := hknows.rely hr
    dsimp only
    split
    · rename_i htenant
      exact Task.upholds_pure.mpr ⟨hknows.1, (hknows.2.2 (.inl htenant)).1⟩
    · rename_i htenant
      split
      · rename_i hsame
        refine Task.upholds_pure.mpr ⟨hknows.1, t, hknows.2.1 fun hd => hd.elim htenant fun hne => hne hsame, ?_⟩
        rw [hcall, apply, if_pos hsame]
      · rename_i hne
        have hcalm : Task.Upholds (turn now calls s i) (fun r w' => r = .ok () ∧ Knows now calls s i t (Differs tenant f t) w')
            (Work.contend t.id) w := by
          refine Task.upholds_update.mpr ⟨w, ?_, Recorded.stay, rfl, hknows⟩
          dsimp only
          rw [hknows.1.calm]
        refine Task.Upholds.bind ?_ (fun e w h => ?_) hcalm
        swap
        · cases h.1
        rintro _ w ⟨-, hknows⟩
        refine Task.Upholds.bind ?_ (fun e w h => ?_) (upholds_writeAt start hcall hover hne hcalls hknows)
        swap
        · exact h
        intro row w hrow
        cases row with
        | some row =>
          obtain ⟨hw, hread, hplaced⟩ := hrow
          have hsegment : Work.readRow row = pure ((f t).1.revised (t.revision + 1)) := by
            rw [Work.readRow, hread]
            rfl
          dsimp only
          rw [hsegment, pure_bind]
          refine Task.upholds_pure.mpr ⟨hw, t, hplaced, ?_⟩
          rw [hcall, apply, if_neg hne]
        | none =>
          obtain ⟨hw, hi, hmore⟩ := hrow
          exact upholds_mutateWithin hcall hcalls tries hw hi (by push_cast at hmet; omega)

theorem Recorded.failed {w : List ι × State} (hw : Recorded now calls s w) (hi : i ∉ w.1) {e : Fault}
    (he : ∀ sid number, e ≠ .keepsChanging sid number) : Ended now calls s start i (.error e) w :=
  ⟨hw, hi, fun sid number h => absurd h (he sid number)⟩

theorem upholds_updateCall {id : String} {changes : List Store.Change} (hcall : calls i = .update id changes)
    (hcalls : ∀ i, (calls i).IsAbout s) {w : List ι × State} (hw : Recorded now calls s w) (hi : i ∉ w.1) :
    (Work.updateCall id changes).Upholds (turn now calls s i)
      (fun r w' => Ended now calls s start i (r.map fun o => o.map fun t => (t, none)) w') w := by
  have hid : Store.sameId id (replay now calls w.1 s).id = true := by
    have := hcalls i
    rw [hcall] at this
    rw [(replay_key hcalls now w.1 s).1]
    exact this
  unfold Work.updateCall
  split
  · exact Task.upholds_pure.mpr ⟨hw, hi⟩
  · refine Task.Upholds.bind (P := fun (r : Except Fault (Option CallRow)) w' => match r with
      | .ok row => ∃ r t, row = some r ∧ r.read = .ok (t.changed changes) ∧ Recorded now calls s w' ∧
          Placed now calls s i t w'.1
      | .error e => Ended now calls s start i (.error e) w') ?_ (fun _ _ h => h) ?_
    · rintro _ w ⟨row, t, rfl, hread, hw, hplaced⟩
      have hsegment : Work.readRow? (some row) = pure (some (t.changed changes)) := by
        rw [Work.readRow?, Work.readRow, hread]
        rfl
      rw [hsegment]
      exact Task.upholds_pure.mpr ⟨hw, t, hplaced, by rw [hcall]; rfl⟩
    · refine Work.upholds_statement (fun row db h => ?_) (hw.failed start hi fun _ _ h => nomatch h)
        fun _ => hw.failed start hi fun _ _ h => nomatch h
      obtain ⟨r, rfl, hread, hdb⟩ := hw.has.changeCall hid h
      have hdb : db.Has ((calls i).apply now (replay now calls w.1 s)).1 := by rw [hcall]; exact hdb
      refine ⟨(w.1 ++ [i], { w.2 with store := db }), rfl, hw.guarantees_take hi hdb, fun w' hr => ?_⟩
      obtain ⟨hw', more, hmore, -⟩ := hr (hw.take hi hdb)
      exact ⟨r, _, rfl, hread, hw', hmore ▸ (placed_last i w.1).append more⟩

theorem upholds_handOver {active : Segment} {h : Store.Handover} {scratch : Scratch}
    (hcall : calls i = .handOver active h scratch) (hcalls : ∀ i, (calls i).IsAbout s) {w : List ι × State}
    (hw : Recorded now calls s w) (hi : i ∉ w.1) :
    (Work.handOver active h scratch).Upholds (turn now calls s i)
      (fun r w' => Ended now calls s start i (r.map fun p => some (p.1, none)) w') w := by
  have hid : Store.sameId active.id (replay now calls w.1 s).id = true := by
    have := hcalls i
    rw [hcall] at this
    rw [(replay_key hcalls now w.1 s).1]
    exact this
  unfold Work.handOver
  refine Task.Upholds.bind (P := fun r w' => r = .ok now ∧ w' = w) ?_ (fun _ _ h => nomatch h.1)
    (Task.upholds_asks.mpr ⟨congrArg Except.ok hw.time, rfl⟩)
  rintro _ w ⟨hnow, rfl⟩
  cases hnow
  refine Task.Upholds.bind (P := fun (r : Except Fault (CallRow × CallRow)) w' => match r with
      | .ok rows => ∃ t u, rows.1.read = .ok (t.handedOn h now) ∧ rows.2.read = .ok u ∧ Recorded now calls s w' ∧
          Placed now calls s i t w'.1
      | .error e => Ended now calls s start i (.error e) w') ?_ (fun _ _ h => h) ?_
  · rintro ⟨closed, opened⟩ w ⟨t, u, hclosed, hopened, hw, hplaced⟩
    refine Task.upholds_interrupt_bind.mpr fun w' hr => ?_
    obtain ⟨hw', more, hmore, -⟩ := hr hw
    have hrows : Work.readRow closed = pure (t.handedOn h now) ∧ Work.readRow opened = pure u := by
      rw [Work.readRow, Work.readRow, hclosed, hopened]
      exact ⟨rfl, rfl⟩
    rw [hrows.1, hrows.2, pure_bind, pure_bind]
    exact Task.upholds_pure.mpr ⟨hw', t, hmore ▸ hplaced.append more, by rw [hcall]; rfl⟩
  · refine Task.upholds_atomically (fun rows st hok => ?_) fun e he => hw.failed start hi fun sid number hkeeps => ?_
    · split at hok
      · cases hok
      · split at hok
        · rename_i rows' db hhand
          cases hok
          obtain ⟨hclosed, ⟨u, hopened⟩, hdb⟩ := hw.has.handOver hid hhand
          have hdb : db.Has ((calls i).apply now (replay now calls w.1 s)).1 := by rw [hcall]; exact hdb
          exact ⟨(w.1 ++ [i], { w.2 with store := db }), rfl, hw.guarantees_take hi hdb, _, u, hclosed, hopened,
            hw.take hi hdb, placed_last i w.1⟩
        · cases hok
        · cases hok
        · cases hok
    · rw [hkeeps] at he
      split at he
      · cases he
      · split at he <;> cases he

/-- **A call takes its place or writes nothing.** -/
theorem upholds_task (hcalls : ∀ i, (calls i).IsAbout s) {w : List ι × State} (hw : Recorded now calls s w)
    (hi : i ∉ w.1) (hstart : start ≤ (replay now calls w.1 s).revision) :
    ((calls i).task s.number).Upholds (turn now calls s i) (Ended now calls s start i) w := by
  cases hcall : calls i with
  | mutate sid tenant f =>
    have hmet : start + Work.mutateTries ≤ (replay now calls w.1 s).revision + Work.mutateTries := by omega
    dsimp only [task]
    refine Task.Upholds.bind ?_ (fun _ _ h => ?_) (upholds_mutateWithin start hcall hcalls Work.mutateTries hw hi hmet)
    swap
    · exact h
    exact fun _ _ h => Task.upholds_pure.mpr h
  | update id changes =>
    dsimp only [task]
    refine Task.Upholds.bind ?_ (fun _ _ h => ?_) (upholds_updateCall start hcall hcalls hw hi)
    swap
    · exact h
    exact fun _ _ h => Task.upholds_pure.mpr h
  | handOver active h scratch =>
    dsimp only [task]
    refine Task.Upholds.bind ?_ (fun _ _ h => ?_) (upholds_handOver start hcall hcalls hw hi)
    swap
    · exact h
    exact fun _ _ h => Task.upholds_pure.mpr h

/-- A call that has had no turn waits on its terms from any revision on that the segment has reached. -/
theorem waits_task (hcalls : ∀ i, (calls i).IsAbout s) {w : List ι × State} (hw : Recorded now calls s w)
    (hi : i ∉ w.1) (hstart : start ≤ (replay now calls w.1 s).revision) :
    ((calls i).task s.number).Waits (turn now calls s i) (Ended now calls s start i) w := by
  intro w' hr
  obtain ⟨hw', more, hmore, hnot⟩ := hr hw
  refine upholds_task start hcalls hw' (hmore ▸ fun hmem => (List.mem_append.mp hmem).elim hi hnot) ?_
  have := le_replay_revision now calls more (replay now calls w.1 s)
  rw [hmore, replay_append]
  omega

end Turns

/-! ## Any number of calls -/

section Calls

variable [DecidableEq ι] {calls : ι → RowCall α} {s : Segment}

abbrev served (calls : ι → RowCall α) (s : Segment) (turns : List ι) (st : State) :
    (ι → Work (Option (Segment × Option α))) × State :=
  Task.interleave turns (fun i => (calls i).task s.number) st

/-- **What some turns lead to**: an order of the calls that have taken their places, none of them without a turn, and each
call waits on its terms; `start` says at which revision a call is taken to begin. -/
theorem turns_recorded {now : Instant} (start : ι → Int) {ts : ι → Work (Option (Segment × Option α))} {w : List ι × State}
    (hw : Recorded now calls s w)
    (hts : ∀ i, (ts i).Waits (turn now calls s i) (Ended now calls s (start i) i) w) (turns : List ι) :
    ∃ w', w'.2 = (Task.interleave turns ts w.2).2 ∧ Recorded now calls s w' ∧
      (∃ more, w'.1 = w.1 ++ more ∧ more ⊆ turns) ∧
      ∀ i, ((Task.interleave turns ts w.2).1 i).Waits (turn now calls s i) (Ended now calls s (start i) i) w' := by
  obtain ⟨w', hsee, hpath, hwaits⟩ := Task.interleave_upholds Relies.trans Relies.refl
    (fun i j w w' hij hg hw => by
      obtain ⟨hw', more, hmore, hown⟩ := hg hw
      exact ⟨hw', more, hmore, fun hj => hij (hown j hj).symm⟩)
    (fun i r w w' h hr => h.rely hr) turns hts
  refine ⟨w', hsee, ?_⟩
  have hrun : Recorded now calls s w' ∧ ∃ more, w'.1 = w.1 ++ more ∧ more ⊆ turns := by
    clear hwaits hsee
    induction hpath with
    | refl => exact ⟨hw, [], (List.append_nil _).symm, List.nil_subset _⟩
    | tail _ hstep ih =>
      obtain ⟨i, hi, hg⟩ := hstep
      obtain ⟨hw₁, more, hmore, hsub⟩ := ih
      obtain ⟨hw₂, last, hlast, hown⟩ := hg hw₁
      refine ⟨hw₂, more ++ last, by rw [hlast, hmore, List.append_assoc], List.append_subset.mpr ⟨hsub, fun j hj => ?_⟩⟩
      rw [hown j hj]
      exact hi
  exact ⟨hrun.1, hrun.2, hwaits⟩

/-- **A call that gave up** has met five writes by others since its first turn. -/
theorem met_writes_since_first_turn {st : State} (hst : st.store.Has s) (hcalm : st.conflicts = 0)
    (hcalls : ∀ i, (calls i).IsAbout s) {i : ι} {before during : List ι} (hbefore : i ∉ before) {sid : String} {number : Int}
    (hr : ((served calls s (before ++ i :: during) st).1 i).outcome? = some (.error (.keepsChanging sid number))) :
    ∃ earlier : List ι, (served calls s before st).2.store.Has (replay st.now calls earlier s) ∧
      ∀ order, (served calls s (before ++ i :: during) st).2.store.Has (replay st.now calls order s) →
        writes st.now calls earlier s + 5 ≤ writes st.now calls order s := by
  -- The turns are cut where the call begins, and it is taken to begin at the revision that the segment has there.
  have hwaits (j : ι) : ((calls j).task s.number).Waits (turn st.now calls s j) (Ended st.now calls s s.revision j) ([], st) :=
    waits_task _ hcalls (recorded_nil hst hcalm) List.not_mem_nil (Int.le_refl _)
  obtain ⟨w, hstate, hw, ⟨earlier, hearlier, hsub⟩, hend⟩ :=
    turns_recorded (fun _ => s.revision) (recorded_nil hst hcalm) hwaits before
  rw [List.nil_append] at hearlier
  have hown : (served calls s before st).1 i = (calls i).task s.number := Task.interleave_of_not_mem hbefore _ _
  have hnot : i ∉ w.1 := hearlier ▸ fun hmem => hbefore (hsub hmem)
  let start (j : ι) := if j = i then (replay st.now calls w.1 s).revision else s.revision
  have hwaits (j : ι) : ((served calls s before st).1 j).Waits (turn st.now calls s j)
      (Ended st.now calls s (start j) j) w := by
    by_cases hj : j = i
    · rw [show start j = _ from if_pos hj, hj, hown]
      exact waits_task _ hcalls hw hnot (Int.le_refl _)
    · rw [show start j = _ from if_neg hj]
      exact hend j
  obtain ⟨w', hstate', hw', -, hend'⟩ := turns_recorded start hw hwaits (i :: during)
  have hserved : Task.interleave (i :: during) (served calls s before st).1 w.2 = served calls s (before ++ i :: during) st := by
    rw [hstate]
    exact (Task.interleave_append before (i :: during) _ st).symm
  rw [hserved] at hstate' hend'
  have hmet := ((hend' i).outcome (Relies.refl i w') hr).2.2 sid number rfl
  rw [show start i = _ from if_pos rfl, hearlier, replay_revision] at hmet
  refine ⟨earlier, hearlier ▸ hstate ▸ hw.has, fun order horder => ?_⟩
  have hkey := replay_key hcalls st.now order s
  have hkey' := replay_key hcalls st.now w'.1 s
  have hhas : (served calls s (before ++ i :: during) st).2.store.Has (replay st.now calls w'.1 s) := hstate' ▸ hw'.has
  rw [horder.unique hhas (hkey'.2.1.trans hkey.2.1.symm) (hkey'.2.2.trans hkey.2.2.symm), replay_revision] at hmet
  omega

/-- **Changes of one segment are serializable, and none is lost.**  Calls that change one segment take turns in any order.
There is an order of calls so that the stored segment is what they make of it one after another: exactly those that returned
with a segment, of the calls that have ended.  Each of these returned what it makes of the segment in its place.  A call
that returned without a segment or failed wrote nothing; and where it gave up because the segment kept changing, five writes
by others at least happened since its first turn. -/
theorem mutate_serializable {st : State} (hst : st.store.Has s) (hcalm : st.conflicts = 0)
    (hcalls : ∀ i, (calls i).IsAbout s) (turns : List ι) :
    ∃ order : List ι, order.Nodup ∧ order ⊆ turns ∧
      (served calls s turns st).2.store.Has (replay st.now calls order s) ∧
      ∀ i r, ((served calls s turns st).1 i).outcome? = some r →
        match r with
        | .ok (some p) => ∃ earlier later, order = earlier ++ i :: later ∧
            p = (calls i).apply st.now (replay st.now calls earlier s)
        | .ok none => i ∉ order
        | .error e => i ∉ order ∧ ∀ sid number, e = .keepsChanging sid number →
            ∀ before during, turns = before ++ i :: during → i ∉ before →
              ∃ earlier : List ι, (served calls s before st).2.store.Has (replay st.now calls earlier s) ∧
                writes st.now calls earlier s + 5 ≤ writes st.now calls order s := by
  have hwaits (i : ι) : ((calls i).task s.number).Waits (turn st.now calls s i) (Ended st.now calls s s.revision i) ([], st) :=
    waits_task _ hcalls (recorded_nil hst hcalm) List.not_mem_nil (Int.le_refl _)
  obtain ⟨w, hstate, hw, ⟨order, hnil, hsub⟩, hend⟩ :=
    turns_recorded (fun _ => s.revision) (recorded_nil hst hcalm) hwaits turns
  rw [List.nil_append] at hnil
  have hhas : (served calls s turns st).2.store.Has (replay st.now calls order s) := by
    rw [← hnil]
    exact (congrArg State.store hstate) ▸ hw.has
  refine ⟨order, hnil ▸ hw.nodup, hsub, hhas, fun i r hr => ?_⟩
  obtain ⟨-, hended⟩ := (hend i).outcome (Relies.refl i w) hr
  rw [hnil] at hended
  match r with
  | .ok (some p) =>
    obtain ⟨t, ⟨earlier, later, horder, rfl⟩, hp⟩ := hended
    exact ⟨earlier, later, horder, hp⟩
  | .ok none => exact hended
  | .error e =>
    refine ⟨hended.1, fun sid number he before during hturns hbefore => ?_⟩
    subst he hturns
    obtain ⟨earlier, hearlier, hmet⟩ := met_writes_since_first_turn hst hcalm hcalls hbefore hr
    exact ⟨earlier, hearlier, hmet order hhas⟩

/-- Two tags that are put on a call at once, in turns that let one write meet the other. -/
def twoTags (first : Bool) : RowCall Unit := .mutate "CA1" none (Segment.addTag (if first then "a" else "b") none)

/-- Both tags are put on, one after the other. -/
theorem both_tags_are_put_on :
    let s := Segment.opened "T1" "CA1" "CA1" 0 "inbound" .inProgress
    let turns := [true, false, true, false, true, false, true, false, false, false, false, false]
    ∃ order : List Bool, order.Nodup ∧ true ∈ order ∧ false ∈ order ∧
      (served twoTags s turns (State.holding [s])).2.store.Has (replay 0 twoTags order s) := by
  intro s turns
  have hhas : (State.holding [s]).store.Has s := by
    refine ⟨⟨List.pairwise_singleton _ _, fun n _ r hr => ?_⟩, CallRow.own s, rfl, rfl⟩
    rw [List.mem_singleton.mp hr]
    exact Store.sameId_empty n
  have habout (first : Bool) : (twoTags first).IsAbout s := ⟨rfl, fun _ => rfl⟩
  obtain ⟨order, hnodup, -, hend, hcalls⟩ := mutate_serializable hhas rfl habout turns
  have hreturned (first : Bool) :
      ((((served twoTags s turns (State.holding [s])).1 first).outcome?.bind Except.toOption).bind id).isSome = true := by
    cases first <;> decide +kernel
  have hplace (first : Bool) : first ∈ order := by
    obtain ⟨p, hp⟩ := Option.isSome_iff_exists.mp (hreturned first)
    obtain ⟨o, ho, rfl⟩ := Option.bind_eq_some_iff.mp hp
    obtain ⟨r, hr, hok⟩ := Option.bind_eq_some_iff.mp ho
    cases r with
    | error e => cases hok
    | ok o =>
      cases hok
      obtain ⟨earlier, later, horder, -⟩ := hcalls first _ hr
      rw [horder]
      simp
  exact ⟨order, hnodup, hplace true, hplace false, hend⟩

end Calls

end RowCall

end Switchboard
