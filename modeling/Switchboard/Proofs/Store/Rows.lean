import Switchboard.Proofs.Store.Ids
/-!
# What writes make of a stored segment

A store has a segment where the row of the segment's call and number reads as it.  Each of the three writes that change
segments (a conditional write, an update of columns, the handing on of a call) makes one change of the segment that the
store has, and counts it in the revision.
-/
namespace Switchboard

open Time (Instant)
open Store (sameId CallRow.overwrite CallRow.change isAt)

/-! ## Rows -/

namespace Segment

/-- A segment with the tags and the attempt record of another. -/
def withDocuments (s t : Segment) : Segment := { s with tags := t.tags, scratch := t.scratch }

def changed (s : Segment) (changes : List Store.Change) : Segment :=
  (changes.foldl Store.Change.apply s).revised (s.revision + 1)

/-- A segment that was handed on. -/
def handedOn (s : Segment) (h : Store.Handover) (now : Instant) : Segment :=
  s.changed [.status (some .transferred), .endedAt (some (.utc now)), .duration (some (s.elapsed (.utc now))),
    .transferredToUserId (some h.toUser), .transferredFromUserId h.fromUser, .transferReason h.reason,
    .transferredAt (some (.utc now))]

theorem foldl_apply_key (changes : List Store.Change) (s : Segment) :
    (changes.foldl Store.Change.apply s).id = s.id ∧ (changes.foldl Store.Change.apply s).tenantId = s.tenantId ∧
      (changes.foldl Store.Change.apply s).callSid = s.callSid ∧ (changes.foldl Store.Change.apply s).rootSid = s.rootSid ∧
      (changes.foldl Store.Change.apply s).number = s.number ∧ (changes.foldl Store.Change.apply s).revision = s.revision := by
  induction changes generalizing s with
  | nil => exact ⟨rfl, rfl, rfl, rfl, rfl, rfl⟩
  | cons c rest ih =>
    have hstep : (c.apply s).id = s.id ∧ (c.apply s).tenantId = s.tenantId ∧ (c.apply s).callSid = s.callSid ∧
        (c.apply s).rootSid = s.rootSid ∧ (c.apply s).number = s.number ∧ (c.apply s).revision = s.revision := by
      cases c with
      | status v => cases v <;> exact ⟨rfl, rfl, rfl, rfl, rfl, rfl⟩
      | _ => exact ⟨rfl, rfl, rfl, rfl, rfl, rfl⟩
    obtain ⟨h₁, h₂, h₃, h₄, h₅, h₆⟩ := ih (c.apply s)
    exact ⟨h₁.trans hstep.1, h₂.trans hstep.2.1, h₃.trans hstep.2.2.1, h₄.trans hstep.2.2.2.1,
      h₅.trans hstep.2.2.2.2.1, h₆.trans hstep.2.2.2.2.2⟩

theorem changed_key (s : Segment) (changes : List Store.Change) : (s.changed changes).id = s.id ∧
    (s.changed changes).rootSid = s.rootSid ∧ (s.changed changes).number = s.number := by
  have hkey := foldl_apply_key changes s
  exact ⟨hkey.1, hkey.2.2.2.1, hkey.2.2.2.2.1⟩

/-- **An update does not look at the documents.** -/
theorem foldl_apply_withDocuments (changes : List Store.Change) (s t : Segment) :
    changes.foldl Store.Change.apply (s.withDocuments t) = (changes.foldl Store.Change.apply s).withDocuments t := by
  induction changes generalizing s with
  | nil => rfl
  | cons c rest ih =>
    have hstep : c.apply (s.withDocuments t) = (c.apply s).withDocuments t := by
      cases c with
      | status v => cases v <;> rfl
      | _ => rfl
    rw [List.foldl_cons, List.foldl_cons, hstep, ih]

end Segment

namespace CallRow

theorem read_of_documents {r : CallRow} {s : Segment} (h : r.read = .ok s) (t : Segment) :
    (⟨t, r.documents⟩ : CallRow).read = .ok (if r.documents.isSome then t.withDocuments s else t) := by
  unfold CallRow.read at h ⊢
  dsimp only
  split at h
  · rename_i hnone
    rw [hnone]
    rfl
  · rename_i tags scratch hsome
    rw [hsome]
    simp only [bind, Except.bind, pure, Except.pure] at h ⊢
    repeat' split at h
    all_goals first
      | cases h; rfl
      | cases h

theorem change_key (r : CallRow) (changes : List Store.Change) :
    (CallRow.change changes r).segment.id = r.segment.id ∧ (CallRow.change changes r).segment.rootSid = r.segment.rootSid ∧
      (CallRow.change changes r).segment.number = r.segment.number := by
  have hkey := Segment.foldl_apply_key changes r.segment
  exact ⟨hkey.1, hkey.2.2.2.1, hkey.2.2.2.2.1⟩

/-- **An update of columns** updates the segment that is read. -/
theorem read_change {r : CallRow} {s : Segment} (h : r.read = .ok s) (changes : List Store.Change) :
    (CallRow.change changes r).read = .ok (s.changed changes) := by
  have hrevision := (Segment.foldl_apply_key changes r.segment).2.2.2.2.2
  have hread := read_of_documents h ((changes.foldl Store.Change.apply r.segment).revised (r.segment.revision + 1))
  have hwritten : CallRow.change changes r =
      ⟨(changes.foldl Store.Change.apply r.segment).revised (r.segment.revision + 1), r.documents⟩ := by
    rw [← hrevision]
    rfl
  rw [hwritten, hread]
  have hrow : r.segment = s.withDocuments r.segment := segment_of_read h
  cases hdoc : r.documents with
  | none =>
    have hs : r.segment = s := by
      unfold CallRow.read at h
      rw [hdoc] at h
      exact Except.ok.inj h
    rw [hs]
    rfl
  | some d =>
    refine congrArg Except.ok ?_
    have hfold : (changes.foldl Store.Change.apply r.segment).withDocuments s = changes.foldl Store.Change.apply s := by
      rw [hrow, ← Segment.foldl_apply_withDocuments]
      rfl
    have hrev : r.segment.revision = s.revision := (congrArg Segment.revision hrow :)
    rw [Segment.changed, ← hfold, ← hrev]
    rfl

/-- **A conditional write** stores the changed segment. -/
theorem read_overwrite {r : CallRow} {s t : Segment} (h : r.read = .ok s) (ht : s.overwriting t = t) :
    (CallRow.overwrite t r).read = .ok (t.revised (s.revision + 1)) := by
  rw [CallRow.overwrite_eq h, ht]
  rfl

end CallRow

/-! ## Stores -/

namespace Store

/-- The store has a segment: the row of its call and number reads as it. -/
structure Has (db : Store) (s : Segment) : Prop where
  identified : db.Identified
  stored : ∃ r, db.segmentRow s.rootSid s.number none = some r ∧ r.read = .ok s

/-- **A store has one segment of a call and number.** -/
theorem eq_of_stored {db : Store} {s t : Segment}
    (hs : ∃ r, db.segmentRow s.rootSid s.number none = some r ∧ r.read = .ok s)
    (ht : ∃ r, db.segmentRow t.rootSid t.number none = some r ∧ r.read = .ok t) (hroot : t.rootSid = s.rootSid)
    (hnumber : t.number = s.number) : t = s := by
  obtain ⟨r, hr, hread⟩ := hs
  obtain ⟨r', hr', hread'⟩ := ht
  rw [hroot, hnumber, hr] at hr'
  cases hr'
  exact Except.ok.inj (hread'.symm.trans hread)

theorem Has.unique {db : Store} {s t : Segment} (hs : db.Has s) (ht : db.Has t) (hroot : t.rootSid = s.rootSid)
    (hnumber : t.number = s.number) : t = s :=
  eq_of_stored hs.stored ht.stored hroot hnumber

theorem Has.row {db : Store} {s : Segment} (h : db.Has s) :
    ∃ r ∈ db.calls, db.segmentRow s.rootSid s.number none = some r ∧ r.read = .ok s ∧ r.segment.id = s.id ∧
      r.segment.revision = s.revision ∧ ∀ a ∈ db.calls, sameId a.segment.id s.id = true → a = r := by
  obtain ⟨r, hfind, hr⟩ := h.stored
  have hmem : r ∈ db.calls := List.mem_of_find?_eq_some hfind
  have hid : r.segment.id = s.id := by rw [CallRow.segment_of_read hr]
  refine ⟨r, hmem, hfind, hr, hid, by rw [CallRow.segment_of_read hr], fun a ha hsame => ?_⟩
  exact h.identified.keyed.eq_of_sameId ha hmem (hid ▸ hsame)

/-- **A change of rows** changes the segment that the store has as it changes the row of the segment. -/
theorem Has.updateCalls {db : Store} {s t : Segment} (h : db.Has s) (p : CallRow → Bool) {g : CallRow → CallRow}
    (hg : ∀ r, (g r).segment.id = r.segment.id ∧ (g r).segment.rootSid = r.segment.rootSid ∧
      (g r).segment.number = r.segment.number)
    (hroot : t.rootSid = s.rootSid) (hnumber : t.number = s.number)
    (hread : ∀ r, db.segmentRow s.rootSid s.number none = some r → (if p r then g r else r).read = .ok t) :
    (db.updateCalls p g).Has t := by
  obtain ⟨r, hfind, hr⟩ := h.stored
  refine ⟨h.identified.updateCalls p fun r => (hg r).1, _, ?_, hread r hfind⟩
  rw [hroot, hnumber]
  exact segmentRow_updateCalls p (fun r => (hg r).2) hfind

theorem Has.insertCall {db db' : Store} {s : Segment} {r r' : CallRow} (h : db.Has s)
    (hr : db.insertCall r = .ok (r', db')) : db'.Has s := by
  obtain ⟨a, hfind, hread⟩ := h.stored
  refine ⟨h.identified.insertCall hr, a, ?_, hread⟩
  obtain ⟨-, -, rfl⟩ := insertCall_eq_ok hr
  unfold Store.segmentRow at hfind ⊢
  show List.find? _ (db.calls ++ [r']) = _
  rw [List.find?_append, hfind]
  rfl

/-- **A conditional write at the revision of the segment** stores the changed segment. -/
theorem Has.writeAt {db : Store} {s t : Segment} (h : db.Has s) (ht : s.overwriting t = t)
    (hfits : t.duration.all fits = true) :
    ∃ row db', writeAt t s.revision db = .ok (some row, db') ∧ row.read = .ok (t.revised (s.revision + 1)) ∧
      db'.Has (t.revised (s.revision + 1)) := by
  obtain ⟨r, hmem, hfind, hr, hid, hrevision, hone⟩ := h.row
  have hkey : t.id = s.id ∧ t.rootSid = s.rootSid ∧ t.number = s.number := by rw [← ht]; exact ⟨rfl, rfl, rfl⟩
  have hat : isAt t.id s.revision r = true := by
    rw [isAt, hkey.1, hid, hrevision, sameId_self, decide_eq_true rfl]
    rfl
  have hrow : db.calls.find? (isAt t.id s.revision) = some r := by
    rw [hkey.1, ← hid, h.identified.keyed.find?_isAt hmem, hrevision, if_pos rfl]
  refine ⟨CallRow.overwrite t r, db.updateCalls (isAt t.id s.revision) (CallRow.overwrite t), ?_,
    CallRow.read_overwrite hr ht, ?_⟩
  · rw [Store.writeAt, hfits, hrow]
    rfl
  · refine h.updateCalls _ (fun r => ⟨rfl, rfl, rfl⟩) hkey.2.1 hkey.2.2 fun r' hr' => ?_
    rw [hfind] at hr'
    cases hr'
    rw [if_pos hat]
    exact CallRow.read_overwrite hr ht

/-- **A conditional write at an earlier revision** writes nothing. -/
theorem Has.writeAt_late {db : Store} {s t : Segment} (h : db.Has s) (ht : t.id = s.id) {k : Int} (hk : s.revision ≠ k)
    (hfits : t.duration.all fits = true) : Store.writeAt t k db = .ok (none, db) := by
  obtain ⟨r, hmem, hfind, hr, hid, hrevision, hone⟩ := h.row
  have hnone : ∀ a ∈ db.calls, isAt t.id k a = false := by
    intro a ha
    rw [Bool.eq_false_iff]
    intro hat
    rw [isAt, Bool.and_eq_true, decide_eq_true_eq, ht] at hat
    cases hone a ha hat.1
    exact hk (hrevision.symm.trans hat.2)
  have hsame : db.updateCalls (isAt t.id k) (CallRow.overwrite t) = db := by
    have hmap : (db.calls.map fun r => if isAt t.id k r then CallRow.overwrite t r else r) = db.calls :=
      (List.map_congr_left fun a ha => if_neg (by rw [hnone a ha]; exact Bool.false_ne_true)).trans (List.map_id _)
    unfold Store.updateCalls
    rw [hmap]
  have hfind : db.calls.find? (isAt t.id k) = none :=
    List.find?_eq_none.mpr fun a ha => by rw [hnone a ha]; exact Bool.false_ne_true
  rw [Store.writeAt, hfits, hsame, hfind]
  rfl

theorem Has.rowOfId {db : Store} {s : Segment} (h : db.Has s) {id : String} (hid : sameId id s.id = true) :
    ∃ r, db.rowOfId id none = some r ∧ db.segmentRow s.rootSid s.number none = some r ∧ r.read = .ok s ∧
      sameId r.segment.id id = true := by
  obtain ⟨r, hmem, hfind, hr, hrid, -, -⟩ := h.row
  have hrow : sameId r.segment.id id = true := by rw [hrid, sameId_comm]; exact hid
  exact ⟨r, h.identified.keyed.rowOfId hmem hrow, hfind, hr, hrow⟩

/-- **An update of columns** of the row with a segment's id updates the segment. -/
theorem Has.changeCall {db db' : Store} {s : Segment} {id : String} {changes : List Change} {row : Option CallRow}
    (h : db.Has s) (hid : sameId id s.id = true) (hc : Store.changeCall id changes db = .ok (row, db')) :
    ∃ r, row = some r ∧ r.read = .ok (s.changed changes) ∧ db'.Has (s.changed changes) := by
  obtain ⟨r, hfound, hfind, hr, hsame⟩ := h.rowOfId hid
  unfold Store.changeCall at hc
  rw [hfound] at hc
  split at hc
  · cases hc
  · dsimp only at hc
    split at hc
    · cases hc
    · cases hc
      have hkey := Segment.changed_key s changes
      refine ⟨_, rfl, CallRow.read_change hr changes, ?_⟩
      refine h.updateCalls _ (fun a => CallRow.change_key a changes) hkey.2.1 hkey.2.2 fun a ha => ?_
      rw [hfind] at ha
      cases ha
      rw [if_pos hsame]
      exact CallRow.read_change hr changes

/-- What the handing on of a call does: the open row with the segment's id is handed on, and the next segment's row is
added. -/
theorem handOver_eq_ok {db db' : Store} {active : Segment} {h : Handover} {scratch : Scratch} {now : Instant}
    {closed opened : CallRow} (hh : Store.handOver active h scratch now db = .ok ((closed, opened), db')) :
    ∃ r s, db.rowOfId active.id none = some r ∧ r.segment.isClosed = false ∧ r.read = .ok s ∧
      fits (s.elapsed (.utc now)) = true ∧ closed = CallRow.handOn h now (s.elapsed (.utc now)) r ∧
      (db.updateCalls (fun r => sameId r.segment.id active.id) (CallRow.handOn h now (s.elapsed (.utc now)))).insertCall
        (.own (successor active (db.nextNumber active.rootSid) h scratch now)) = .ok (opened, db') := by
  unfold Store.handOver at hh
  cases hfound : db.rowOfId active.id none with
  | none => rw [hfound] at hh; cases hh
  | some r =>
    rw [hfound] at hh
    dsimp only at hh
    split at hh
    · cases hh
    · rename_i hopen
      cases hr : r.read with
      | error e => rw [hr] at hh; cases hh
      | ok s =>
        rw [hr] at hh
        dsimp only at hh
        split at hh
        · cases hh
        · rename_i hrange
          simp only [Bool.or_eq_true, Bool.not_eq_true', not_or, Bool.not_eq_false] at hrange
          split at hh
          · cases hh
          · rename_i hinsert
            cases hh
            exact ⟨r, s, rfl, Bool.eq_false_iff.mpr hopen, hr, hrange.2, rfl, hinsert⟩

/-- **Handing a call on** closes the segment, and the segment that is opened is another one. -/
theorem Has.handOver {db db' : Store} {s active : Segment} {h : Handover} {scratch : Scratch} {now : Instant}
    {closed opened : CallRow} (hdb : db.Has s) (hid : sameId active.id s.id = true)
    (hh : Store.handOver active h scratch now db = .ok ((closed, opened), db')) :
    closed.read = .ok (s.handedOn h now) ∧ (∃ t, opened.read = .ok t) ∧ db'.Has (s.handedOn h now) := by
  obtain ⟨r, hfound, hfind, hr, hsame⟩ := hdb.rowOfId hid
  obtain ⟨a, t, ha, -, hread, -, rfl, hinsert⟩ := handOver_eq_ok hh
  rw [hfound] at ha
  cases ha
  rw [hr] at hread
  cases hread
  have hkey := Segment.changed_key s
  refine ⟨CallRow.read_change hr _, ?_, ?_⟩
  · obtain ⟨-, rfl, -⟩ := insertCall_eq_ok hinsert
    exact ⟨_, rfl⟩
  · refine Has.insertCall ?_ hinsert
    refine hdb.updateCalls _ (fun a => CallRow.change_key a _) (hkey _).2.1 (hkey _).2.2 fun a ha => ?_
    rw [hfind] at ha
    cases ha
    rw [if_pos hsame]
    exact CallRow.read_change hr _

end Store

end Switchboard
