import Switchboard.Proofs.Service.Run
import Mathlib.Data.List.Pairwise
/-!
# Changes of a stored segment

`mutate` reads a segment, changes it and writes it back if nobody else wrote it meanwhile.  `mutate_cases` says what a
change comes to: it is carried out as one atomic step on the segment that the store holds, or it fails and the segment stays
as it is.  Revisions count writes and nothing else, so a segment is followed up to its revision (`revised`).
-/
namespace Switchboard

/-! ## Segments up to their revision -/

namespace Segment

/-- A segment at another revision. -/
def revised (s : Segment) (k : Int) : Segment := { s with revision := k }

/-- What a conditional write of `t` makes of a stored segment. -/
def overwriting (s t : Segment) : Segment :=
  { s with
    status := t.status, answeredAt := t.answeredAt, answeredBy := t.answeredBy, endedAt := t.endedAt
    duration := t.duration, conferenceName := t.conferenceName, conferenceSid := t.conferenceSid
    tags := t.tags, scratch := t.scratch }

theorem revised_revision (s : Segment) : s.revised s.revision = s := rfl

theorem revised_inj {s t : Segment} {k : Int} (hr : t.revision = s.revision) (h : t.revised k = s.revised k) : t = s := by
  have := congrArg (fun u => revised u s.revision) h
  change t.revised s.revision = s.revised s.revision at this
  rw [← hr] at this
  rw [revised_revision, hr, revised_revision] at this
  exact this

/-- A change of a segment that asks nothing of its revision and changes what a conditional write stores. -/
structure IsChange {α : Type} (f : Segment → Segment × α) : Prop where
  revised : ∀ s k, f (s.revised k) = ((f s).1.revised k, (f s).2)
  overwriting : ∀ s, s.overwriting (f s).1 = (f s).1

namespace IsChange

variable {α : Type} {f : Segment → Segment × α}

theorem id_eq (hf : IsChange f) (s : Segment) : (f s).1.id = s.id := by
  rw [← hf.overwriting s]
  rfl

theorem rootSid_eq (hf : IsChange f) (s : Segment) : (f s).1.rootSid = s.rootSid := by
  rw [← hf.overwriting s]
  rfl

theorem number_eq (hf : IsChange f) (s : Segment) : (f s).1.number = s.number := by
  rw [← hf.overwriting s]
  rfl

theorem revision_eq (hf : IsChange f) (s : Segment) : (f s).1.revision = s.revision := by
  rw [← hf.overwriting s]
  rfl

/-- **Whether a change changes anything does not hang on the revision.** -/
theorem revised_eq_iff (hf : IsChange f) (s : Segment) (k : Int) : (f (s.revised k)).1 = s.revised k ↔ (f s).1 = s := by
  rw [hf.revised]
  constructor
  · exact revised_inj (hf.revision_eq s)
  · intro h
    rw [h]

end IsChange

end Segment

/-! ## The row of a segment -/

/-- The row of a segment holds the segment but for its documents. -/
theorem CallRow.segment_of_read {r : CallRow} {s : Segment} (h : r.read = .ok s) :
    r.segment = { s with tags := r.segment.tags, scratch := r.segment.scratch } := by
  unfold CallRow.read at h
  split at h
  · cases h
    rfl
  · simp only [bind, Except.bind, pure, Except.pure] at h
    repeat' split at h
    all_goals first
      | cases h
        rfl
      | cases h

theorem CallRow.read_written {r : CallRow} {s : Segment} (h : r.read = .ok s) :
    r.written.read = .ok (s.revised (s.revision + 1)) := by
  unfold CallRow.read at h
  unfold CallRow.written CallRow.read
  dsimp only
  split at h
  · cases h
    rfl
  · simp only [bind, Except.bind, pure, Except.pure] at h ⊢
    repeat' split at h
    all_goals first
      | cases h
        rfl
      | cases h

/-- **A conditional write stores what it takes of a segment, one revision on.** -/
theorem CallRow.overwrite_eq {r : CallRow} {s : Segment} (h : r.read = .ok s) (t : Segment) :
    Store.CallRow.overwrite t r = .own ((s.overwriting t).revised (s.revision + 1)) := by
  unfold Store.CallRow.overwrite
  rw [CallRow.segment_of_read h]
  rfl

namespace Store

/-- No two segments have the same id. -/
def Keyed (db : Store) : Prop := db.calls.Pairwise fun a b => sameId a.segment.id b.segment.id = false

theorem sameId_self (a : String) : sameId a a = true := decide_eq_true rfl

theorem sameId_comm (a b : String) : sameId a b = sameId b a := decide_eq_decide.2 eq_comm

theorem sameId_trans {a b c : String} (h : sameId a b = true) (h' : sameId b c = true) : sameId a c = true :=
  decide_eq_true ((of_decide_eq_true h).trans (of_decide_eq_true h'))

/-- The store holds a segment. -/
structure Holds (db : Store) (s : Segment) : Prop where
  keyed : db.Keyed
  fits : Store.fits s.number = true
  inRange : s.duration.all Store.fits = true
  rooted : Naming.root s.rootSid = s.rootSid
  stored : ∃ r, db.segmentRow s.rootSid s.number none = some r ∧ r.read = .ok s

/-- **An id has one row.** -/
theorem Keyed.eq_of_sameId {db : Store} (h : db.Keyed) {a b : CallRow} (ha : a ∈ db.calls) (hb : b ∈ db.calls)
    (hab : sameId a.segment.id b.segment.id = true) : a = b := by
  by_contra hne
  have : Std.Symm fun a b : CallRow => sameId a.segment.id b.segment.id = false :=
    ⟨fun x y hxy => (sameId_comm y.segment.id x.segment.id).trans hxy⟩
  rw [h.forall ha hb hne] at hab
  cases hab

theorem Keyed.updateCalls {db : Store} (h : db.Keyed) (p : CallRow → Bool) {g : CallRow → CallRow}
    (hg : ∀ r, (g r).segment.id = r.segment.id) : (db.updateCalls p g).Keyed := by
  have hid : ∀ r, (if p r then g r else r).segment.id = r.segment.id := fun r => by
    split
    · exact hg r
    · rfl
  unfold Keyed Store.updateCalls at *
  rw [List.pairwise_map]
  refine h.imp ?_
  intro a b hab
  rw [hid a, hid b]
  exact hab

theorem Keyed.rowOfId {db : Store} (h : db.Keyed) {r : CallRow} (hr : r ∈ db.calls) {id : String}
    (hid : sameId r.segment.id id = true) : db.rowOfId id none = some r := by
  cases hfind : db.rowOfId id none with
  | none =>
    have hno := List.find?_eq_none.1 hfind r hr
    rw [hid] at hno
    exact absurd rfl hno
  | some a =>
    have ha := List.find?_some hfind
    rw [Bool.and_eq_true] at ha
    rw [h.eq_of_sameId (List.mem_of_find?_eq_some hfind) hr (sameId_trans ha.1 (sameId_comm _ _ ▸ hid))]

/-- **The row of a segment that is at a revision**, found by its id. -/
theorem Keyed.find?_isAt {db : Store} (h : db.Keyed) {r : CallRow} (hr : r ∈ db.calls) (k : Int) :
    db.calls.find? (isAt r.segment.id k) = if r.segment.revision = k then some r else none := by
  cases hfind : db.calls.find? (isAt r.segment.id k) with
  | none =>
    have := List.find?_eq_none.1 hfind r hr
    simp only [isAt, sameId_self, Bool.true_and, decide_eq_true_eq] at this
    rw [if_neg this]
  | some a =>
    have ha := List.find?_some hfind
    simp only [isAt, Bool.and_eq_true, decide_eq_true_eq] at ha
    have hmem := List.mem_of_find?_eq_some hfind
    have hrow := h.eq_of_sameId hmem hr ha.1
    rw [hrow] at ha ⊢
    rw [if_pos ha.2]

/-- **A write finds the row of a call and number where it was**, as far as it leaves these alone. -/
theorem segmentRow_updateCalls {db : Store} (p : CallRow → Bool) {g : CallRow → CallRow}
    (hg : ∀ r, (g r).segment.rootSid = r.segment.rootSid ∧ (g r).segment.number = r.segment.number) {sid : String}
    {number : Int} {r : CallRow} (h : db.segmentRow sid number none = some r) :
    (db.updateCalls p g).segmentRow sid number none = some (if p r then g r else r) := by
  have hsame : (fun r : CallRow => decide (r.segment.rootSid = sid) && decide (r.segment.number = number) &&
      ownedBy none r.segment.tenantId) ∘ (fun r => if p r then g r else r) = fun r =>
      decide (r.segment.rootSid = sid) && decide (r.segment.number = number) && ownedBy none r.segment.tenantId := by
    funext r
    dsimp only [Function.comp_apply]
    split
    · rw [(hg r).1, (hg r).2]
      rfl
    · rfl
  unfold Store.segmentRow at h ⊢
  show List.find? _ (db.calls.map fun r => if p r then g r else r) = _
  rw [List.find?_map, hsame, h]
  rfl

/-- **A write keeps what the store holds in step**: the stored segment is the one that the written row holds. -/
theorem Holds.updateCalls {db : Store} {s t : Segment} (h : db.Holds s) (p : CallRow → Bool) {g : CallRow → CallRow}
    (hg : ∀ r, (g r).segment.id = r.segment.id ∧ (g r).segment.rootSid = r.segment.rootSid ∧
      (g r).segment.number = r.segment.number)
    (hroot : t.rootSid = s.rootSid) (hnumber : t.number = s.number) (hrange : t.duration.all Store.fits = true)
    (hread : ∀ r ∈ db.calls, db.segmentRow s.rootSid s.number none = some r → r.read = .ok s →
      (if p r then g r else r).read = .ok t) : (db.updateCalls p g).Holds t := by
  obtain ⟨r, hfind, hr⟩ := h.stored
  have hmem : r ∈ db.calls := List.mem_of_find?_eq_some hfind
  refine ⟨h.keyed.updateCalls p fun r => (hg r).1, hnumber ▸ h.fits, hrange, hroot ▸ h.rooted, _, ?_, hread r hmem hfind hr⟩
  rw [hroot, hnumber]
  exact segmentRow_updateCalls p (fun r => (hg r).2) hfind

theorem holds_holding {s : Segment} (hfits : Store.fits s.number = true) (hrange : s.duration.all Store.fits = true)
    (hroot : Naming.root s.rootSid = s.rootSid) : (State.holding [s]).store.Holds s := by
  refine ⟨List.pairwise_singleton _ _, hfits, hrange, hroot, CallRow.own s, ?_, rfl⟩
  show List.find? _ [CallRow.own s] = _
  rw [List.find?_cons_of_pos]
  simp [ownedBy, CallRow.own]

end Store

/-! ## Reading and changing the segment -/

/-- Whether the store takes a change of `s` to `t`: it is to be reached, and where there is something to write the changes
by others leave a try over and the duration fits its column. -/
def State.takes (st : State) (s t : Segment) : Prop :=
  st.isUp = true ∧ (t = s ∨ st.conflicts < Work.mutateTries ∧ t.duration.all Store.fits = true)

namespace Work

theorem run_readRow {r : CallRow} {s : Segment} (h : r.read = .ok s) (st : State) :
    (readRow r).run st = (.ok s, st) := by
  unfold readRow
  rw [Task.run_ofExcept, h]
  rfl

theorem run_segment? {st : State} {s : Segment} (h : st.store.Holds s) {sid : String} (hsid : Naming.root sid = s.rootSid) :
    (segment? sid s.number none).run st = if st.isUp then (.ok (some s), st) else (.error .unreachable, st) := by
  obtain ⟨r, hfind, hr⟩ := h.stored
  unfold segment?
  by_cases hup : st.isUp = true
  · rw [if_pos hup]
    have hrow : (fun db : Store => if Store.fits s.number then
        (.ok (db.segmentRow (Naming.root sid) s.number none, db) : Except StoreFault _) else .error .range) st.store =
        .ok (some r, st.store) := by
      rw [← hsid] at hfind
      dsimp only
      rw [if_pos h.fits, hfind]
    refine (Task.run_bind_ok (run_statement_ok hup hrow)).trans ?_
    exact Task.run_bind_ok (run_readRow hr st)
  · rw [if_neg hup]
    refine Task.run_bind_error ?_
    rw [run_statement, if_neg hup]

/-- **Behind a change by somebody else the segment is a revision on**, and otherwise as it was. -/
theorem run_contend {st : State} {s : Segment} (h : st.store.Holds s) :
    ∃ db c k, (contend s.id).run st = (.ok (), { st with store := db, conflicts := c }) ∧ db.Holds (s.revised k) ∧
      (st.conflicts = 0 → c = 0 ∧ k = s.revision) ∧ (st.conflicts ≠ 0 → st.conflicts = c + 1 ∧ k = s.revision + 1) := by
  cases hc : st.conflicts with
  | zero =>
    have hsame : { st with conflicts := 0 } = st := by rw [← hc]
    refine ⟨st.store, 0, s.revision, ?_, h, fun _ => ⟨rfl, rfl⟩, nofun⟩
    rw [contend, Task.run_update, hc, hsame]
  | succ n =>
    refine ⟨st.store.updateCalls (fun r => Store.sameId r.segment.id s.id) CallRow.written, n, s.revision + 1, ?_, ?_,
      nofun, fun _ => ⟨rfl, rfl⟩⟩
    · rw [contend, Task.run_update, hc]
    · refine h.updateCalls _ (fun r => ⟨rfl, rfl, rfl⟩) rfl rfl h.inRange fun r _ _ hr => ?_
      have hid : r.segment.id = s.id := by rw [CallRow.segment_of_read hr]
      rw [if_pos (hid ▸ Store.sameId_self _)]
      exact CallRow.read_written hr

/-- **What a conditional write finds**: the row of the segment, if it is at the revision that was read. -/
theorem writeAt_of_holds {db : Store} {s t : Segment} (h : db.Holds s) (ht : t.id = s.id) (k : Int) :
    ∃ r, db.segmentRow s.rootSid s.number none = some r ∧ r.read = .ok s ∧
      Store.isAt t.id k r = decide (s.revision = k) ∧
      Store.writeAt t k db =
        if t.duration.all Store.fits then
          .ok (if s.revision = k then some (Store.CallRow.overwrite t r) else none,
            db.updateCalls (Store.isAt t.id k) (Store.CallRow.overwrite t))
        else .error .range := by
  obtain ⟨r, hfind, hr⟩ := h.stored
  have hmem : r ∈ db.calls := List.mem_of_find?_eq_some hfind
  have hrow := CallRow.segment_of_read hr
  have hid : r.segment.id = t.id := by rw [hrow, ht]
  have hrev : r.segment.revision = s.revision := by rw [hrow]
  have hat := h.keyed.find?_isAt hmem k
  rw [hid, hrev] at hat
  refine ⟨r, hfind, hr, ?_, ?_⟩
  · rw [Store.isAt, hid, Store.sameId_self, hrev, Bool.true_and]
  · unfold Store.writeAt
    rw [hat]
    cases t.duration.all Store.fits with
    | false => rfl
    | true => by_cases hk : s.revision = k <;> simp [hk]

/-- **A conditional write at the stored revision** writes what it takes of the changed segment. -/
theorem writeAt_current {db : Store} {s t : Segment} (h : db.Holds s) (ht : t.id = s.id)
    (hfits : t.duration.all Store.fits = true) :
    ∃ row db', Store.writeAt t s.revision db = .ok (some row, db') ∧
      row.read = .ok ((s.overwriting t).revised (s.revision + 1)) ∧
      db'.Holds ((s.overwriting t).revised (s.revision + 1)) := by
  obtain ⟨r, hfind, hr, hisAt, hwrite⟩ := writeAt_of_holds h ht s.revision
  rw [if_pos hfits, if_pos rfl] at hwrite
  rw [decide_eq_true rfl] at hisAt
  have hread : (Store.CallRow.overwrite t r).read = .ok ((s.overwriting t).revised (s.revision + 1)) := by
    rw [CallRow.overwrite_eq hr t]
    rfl
  refine ⟨_, _, hwrite, hread, ?_⟩
  refine h.updateCalls _ (fun r => ⟨rfl, rfl, rfl⟩) rfl rfl hfits fun r' _ hfind' _ => ?_
  rw [hfind] at hfind'
  cases hfind'
  rw [if_pos hisAt]
  exact hread

/-- **A conditional write at another revision** writes nothing to the segment. -/
theorem writeAt_late {db : Store} {s t : Segment} (h : db.Holds s) (ht : t.id = s.id) {k : Int} (hk : s.revision ≠ k)
    (hfits : t.duration.all Store.fits = true) : ∃ db', Store.writeAt t k db = .ok (none, db') ∧ db'.Holds s := by
  obtain ⟨r, hfind, hr, hisAt, hwrite⟩ := writeAt_of_holds h ht k
  rw [if_pos hfits, if_neg hk] at hwrite
  rw [decide_eq_false hk] at hisAt
  refine ⟨_, hwrite, ?_⟩
  refine h.updateCalls _ (fun r => ⟨rfl, rfl, rfl⟩) rfl rfl h.inRange fun r' _ hfind' hr' => ?_
  rw [hfind] at hfind'
  cases hfind'
  rw [hisAt]
  exact hr'

/-- **A try reads the segment** and goes on with it. -/
theorem mutateWithin_opening {α : Type} (f : Segment → Segment × α) {sid : String} (tenant : Option String) {st : State}
    {s : Segment} (h : st.store.Holds s) (hsid : Naming.root sid = s.rootSid) (hup : st.isUp = true) (tries : Nat) :
    (mutateWithin sid s.number tenant f (tries + 1)).run st =
      Task.run (if tenant.any (fun t => t != s.tenantId) then return none
        else if (f s).1 = s then return some (s, (f s).2)
        else do
          contend s.id
          match ← statement (Store.writeAt (f s).1 s.revision) with
          | some row => return some (← readRow row, (f s).2)
          | none => mutateWithin sid s.number tenant f tries) st := by
  have hread := run_segment? h hsid
  rw [if_pos hup] at hread
  rw [mutateWithin, Task.run_bind_ok hread]
  exact Task.run_bind_ok (Task.run_interrupt _ st)

/-- **One try of a change** that has something to write, to the segment with the change's id: it writes what a conditional
write takes, unless another writer came first; behind that writer it leaves the next try with the segment a revision on. -/
theorem mutateWithin_step {α : Type} {f : Segment → Segment × α} {sid : String} {tenant : Option String} {st : State}
    {s : Segment} (h : st.store.Holds s) (hsid : Naming.root sid = s.rootSid) (hup : st.isUp = true)
    (htenant : tenant.any (fun t => t != s.tenantId) = false) (hid : (f s).1.id = s.id) (hne : (f s).1 ≠ s) (tries : Nat) :
    (∃ db k c, (mutateWithin sid s.number tenant f (tries + 1)).run st =
        (.error (.refused .range), { st with store := db, conflicts := c }) ∧ db.Holds (s.revised k) ∧
      (f s).1.duration.all Store.fits = false) ∨
    (∃ db, (mutateWithin sid s.number tenant f (tries + 1)).run st =
        (.ok (some ((s.overwriting (f s).1).revised (s.revision + 1), (f s).2)), { st with store := db, conflicts := 0 }) ∧
      db.Holds ((s.overwriting (f s).1).revised (s.revision + 1)) ∧ st.conflicts = 0 ∧
      (f s).1.duration.all Store.fits = true) ∨
    ∃ db c, (mutateWithin sid s.number tenant f (tries + 1)).run st =
        (mutateWithin sid s.number tenant f tries).run { st with store := db, conflicts := c } ∧
      db.Holds (s.revised (s.revision + 1)) ∧ st.conflicts = c + 1 ∧ (f s).1.duration.all Store.fits = true := by
  obtain ⟨db, c, k, hcontend, hdb, hnone, hsome⟩ := run_contend h
  rw [mutateWithin_opening f tenant h hsid hup, if_neg (by rw [htenant]; decide), if_neg hne, Task.run_bind_ok hcontend]
  cases hfits : (f s).1.duration.all Store.fits with
  | false =>
    -- the column refuses the duration, whoever else writes
    have hwrite : Store.writeAt (f s).1 s.revision db = .error .range := by
      rw [Store.writeAt, hfits]
      rfl
    exact .inl ⟨db, k, c, Task.run_bind_error (run_statement_error hup hwrite), hdb, rfl⟩
  | true =>
    refine .inr ?_
    by_cases hc : st.conflicts = 0
    · obtain ⟨rfl, rfl⟩ := hnone hc
      rw [Segment.revised_revision] at hdb
      obtain ⟨row, db', hwrite, hrow, hdb'⟩ := writeAt_current hdb hid hfits
      have hrun : (statement (Store.writeAt (f s).1 s.revision)).run { st with store := db, conflicts := 0 } =
          (.ok (some row), { st with store := db', conflicts := 0 }) := run_statement_ok hup hwrite
      refine .inl ⟨db', ?_, hdb', hc, rfl⟩
      rw [Task.run_bind_ok hrun]
      exact Task.run_bind_ok (run_readRow hrow _)
    · obtain ⟨hc', rfl⟩ := hsome hc
      have hlate : (s.revised (s.revision + 1)).revision ≠ s.revision := by
        show s.revision + 1 ≠ s.revision
        omega
      obtain ⟨db', hwrite, hdb'⟩ := writeAt_late (t := (f s).1) hdb hid hlate hfits
      have hrun : (statement (Store.writeAt (f s).1 s.revision)).run { st with store := db, conflicts := c } =
          (.ok none, { st with store := db', conflicts := c }) := run_statement_ok hup hwrite
      exact .inr ⟨db', c, by rw [Task.run_bind_ok hrun], hdb', hc', rfl⟩

/-- **A change that others leave a try for is carried out**, and one that they do not fails; either way the store holds the
segment, changed or not. -/
theorem mutateWithin_cases {α : Type} {f : Segment → Segment × α} (hf : Segment.IsChange f) {sid : String} :
    ∀ (tries : Nat) (st : State) (s : Segment), st.store.Holds s → Naming.root sid = s.rootSid → st.isUp = true →
      (f s).1 ≠ s →
      (∃ db k, (mutateWithin sid s.number none f tries).run st =
          (.ok (some ((f s).1.revised k, (f s).2)), { st with store := db, conflicts := 0 }) ∧
        db.Holds ((f s).1.revised k) ∧ st.conflicts < tries ∧ (f s).1.duration.all Store.fits = true) ∨
      (∃ db k c e, (mutateWithin sid s.number none f tries).run st = (.error e, { st with store := db, conflicts := c }) ∧
        db.Holds (s.revised k) ∧ ¬ (st.conflicts < tries ∧ (f s).1.duration.all Store.fits = true))
  | 0, st, s, h, _, _, _ => .inr ⟨st.store, s.revision, st.conflicts, _, rfl, h, fun hlt => absurd hlt.1 (Nat.not_lt_zero _)⟩
  | tries + 1, st, s, h, hsid, hup, hne => by
    have htenant : (none : Option String).any (fun t => t != s.tenantId) = false := rfl
    rcases mutateWithin_step h hsid hup htenant (hf.id_eq s) hne tries with
      ⟨db, k, c, hrun, hdb, hfits⟩ | ⟨db, hrun, hdb, hc, hfits⟩ | ⟨db, c, hrun, hdb, hc, hfits⟩
    · exact .inr ⟨db, k, c, _, hrun, hdb, fun h => by rw [hfits] at h; exact nomatch h.2⟩
    · rw [hf.overwriting s] at hrun hdb
      exact .inl ⟨db, s.revision + 1, hrun, hdb, by omega, hfits⟩
    · have ih := mutateWithin_cases hf tries { st with store := db, conflicts := c } _ hdb hsid hup
        (fun h => hne ((hf.revised_eq_iff s _).1 h))
      rw [hf.revised] at ih
      have hlt : c < tries ↔ st.conflicts < tries + 1 := by omega
      rw [hrun]
      rcases ih with ⟨db₂, k, hrun₂, hdb₂, hc₂, -⟩ | ⟨db₂, k, c₂, e, hrun₂, hdb₂, hno⟩
      · exact .inl ⟨db₂, k, hrun₂, hdb₂, hlt.1 hc₂, hfits⟩
      · exact .inr ⟨db₂, k, c₂, e, hrun₂, hdb₂, fun h => hno ⟨hlt.2 h.1, hfits⟩⟩

/-- **A change that leaves the segment as it is** writes nothing. -/
theorem run_mutate_of_kept {α : Type} {f : Segment → Segment × α} {st : State} {s : Segment} (h : st.store.Holds s)
    {sid : String} (hsid : Naming.root sid = s.rootSid) (hup : st.isUp = true) (hsame : (f s).1 = s) :
    (mutate sid s.number none f).run st = (.ok (some (s, (f s).2)), st) := by
  have hany : ¬ (none : Option String).any (fun t => t != s.tenantId) = true := Bool.false_ne_true
  rw [mutate, mutateTries, mutateWithin_opening f none h hsid hup, if_neg hany, if_pos hsame]
  rfl

/-- **A change of a segment is one atomic step, or none.**  Where the store takes the change, it gives what the change gives
and the store holds the changed segment; where not, it fails and the store holds the segment as it was. -/
theorem mutate_cases {α : Type} {f : Segment → Segment × α} (hf : Segment.IsChange f) {st : State} {s : Segment}
    (h : st.store.Holds s) {sid : String} (hsid : Naming.root sid = s.rootSid) :
    (∃ db k c, (mutate sid s.number none f).run st =
        (.ok (some ((f s).1.revised k, (f s).2)), { st with store := db, conflicts := c }) ∧
      db.Holds ((f s).1.revised k) ∧ st.takes s (f s).1 ∧ c = if (f s).1 = s then st.conflicts else 0) ∨
    (∃ db k c e, (mutate sid s.number none f).run st = (.error e, { st with store := db, conflicts := c }) ∧
      db.Holds (s.revised k) ∧ ¬ st.takes s (f s).1) := by
  by_cases hup : st.isUp = true
  · by_cases hsame : (f s).1 = s
    · refine .inl ⟨st.store, s.revision, st.conflicts, ?_, ?_, ⟨hup, .inl hsame⟩, (if_pos hsame).symm⟩
      · rw [run_mutate_of_kept h hsid hup hsame, hsame, Segment.revised_revision]
      · rw [hsame]
        exact h
    · rcases mutateWithin_cases hf mutateTries st s h hsid hup hsame with
        ⟨db, k, hrun, hdb, hc, hd⟩ | ⟨db, k, c, e, hrun, hdb, hno⟩
      · exact .inl ⟨db, k, 0, hrun, hdb, ⟨hup, .inr ⟨hc, hd⟩⟩, (if_neg hsame).symm⟩
      · exact .inr ⟨db, k, c, e, hrun, hdb, fun h => h.2.elim hsame hno⟩
  · have hread := run_segment? h hsid
    rw [if_neg hup] at hread
    exact .inr ⟨st.store, s.revision, st.conflicts, _, Task.run_bind_error hread, h, fun h => hup h.1⟩

end Work

end Switchboard
