import Switchboard.Proofs.Service.Deeds
import Switchboard.Proofs.Store.Rows
import Mathlib.Logic.Relation
/-!
# The lives of rows

A row of a call is written in four ways: a deed on the segment that it reads as, an update of columns that say neither when
the segment was answered nor how it ended, the handing on of an open segment, and the mark of a dial that reached nobody.
The life of a row is a run of such writes.  It leaves alone who the row is and counts its writes, so a row at the revision
that was read is the row that was read (`Writes.eq_of_revision`).

A row that is closed keeps the record of how it ended, until a write overturns it (`Writes.record`).
-/
namespace Switchboard

open Time (Instant)
open Store (Change CallRow.overwrite CallRow.change CallRow.handOn)

/-- Who a segment is. -/
structure Segment.Key where
  id : String
  tenantId : String
  callSid : String
  rootSid : String
  number : Int
  deriving DecidableEq

def Segment.key (s : Segment) : Segment.Key := ⟨s.id, s.tenantId, s.callSid, s.rootSid, s.number⟩

/-- Whether a change leaves alone when a segment was answered and how it ended. -/
def Store.Change.spares : Change → Bool
  | .status _ | .answeredAt _ | .endedAt _ | .duration _ => false
  | _ => true

/-- Whether a change leaves alone which conference a segment has. -/
def Store.Change.sparesRoom : Change → Bool
  | .conferenceName _ => false
  | _ => true

/-- What is noted of a segment whose agent cannot be dialed. -/
def Store.Change.unreached (now : Instant) : List Change :=
  [.status (some .failed), .endedAt (some (.utc now)), .duration (some 0)]

namespace CallRow

/-- One write of a row, registering legs of a kind only.  A closed row is marked as unreached only in a crowd, where others
may have closed it since it was opened for the dial. -/
inductive Write (known : String → Prop) (crowded : Prop) : CallRow → CallRow → Prop where
  | deed {r : CallRow} {s : Segment} (d : Segment.Deed) (hread : r.read = .ok s) (hlegs : ∀ leg ∈ d.registers, known leg) :
    Write known crowded r (CallRow.overwrite (s.did d) r)
  | columns {r : CallRow} (changes : List Change) (hspares : changes.all Change.spares = true) :
    Write known crowded r (CallRow.change changes r)
  | handOn {r : CallRow} (h : Store.Handover) (now : Instant) (duration : Int) (hopen : r.segment.isClosed = false) :
    Write known crowded r (CallRow.handOn h now duration r)
  | unreached {r : CallRow} (now : Instant) (hlate : r.segment.isClosed = true → crowded) :
    Write known crowded r (CallRow.change (Change.unreached now) r)

def Writes (known : String → Prop) (crowded : Prop) : CallRow → CallRow → Prop :=
  Relation.ReflTransGen (Write known crowded)

/-- A write that overturns how a segment ended: it claims the failure of an attempt that is open and unanswered, for a
segment that has nowhere to go on, or it marks a dial that reached nobody, in a crowd. -/
inductive Overturns (crowded : Prop) : CallRow → CallRow → Prop where
  | claim {r : CallRow} {s : Segment} (d : Segment.Deed) (hread : r.read = .ok s) (hends : d.endsCall s = true)
      (hopen : s.scratch.failureHandled = false) (hunanswered : s.scratch.answeredLeg = none)
      (hmove : s.moveAfterFailure = .terminate) : Overturns crowded r (CallRow.overwrite (s.did d) r)
  | unreached {r : CallRow} (now : Instant) (hlate : crowded) :
    Overturns crowded r (CallRow.change (Change.unreached now) r)

/-! ## Updates of columns -/

/-- A row that can be read behind an update could be read before it. -/
theorem read_of_change {r : CallRow} {changes : List Change} {t : Segment} (h : (CallRow.change changes r).read = .ok t) :
    ∃ s, r.read = .ok s ∧ t = s.changed changes := by
  cases hr : r.read with
  | ok s =>
    rw [read_change hr] at h
    exact ⟨s, rfl, (Except.ok.inj h).symm⟩
  | error e =>
    unfold CallRow.read at hr h
    have hdoc : (CallRow.change changes r).documents = r.documents := rfl
    rw [hdoc] at h
    split at hr
    · cases hr
    · rename_i tags scratch hsome
      rw [hsome] at h
      simp only [bind, Except.bind, pure, Except.pure] at h hr
      repeat' split at hr
      all_goals simp_all

theorem scratch_foldl_apply (changes : List Change) (s : Segment) : (changes.foldl Change.apply s).scratch = s.scratch := by
  induction changes generalizing s with
  | nil => rfl
  | cons c rest ih =>
    rw [List.foldl_cons, ih]
    cases c with
    | status v => cases v <;> rfl
    | _ => rfl

theorem record_foldl_apply {changes : List Change} (h : changes.all Change.spares = true) (s : Segment) :
    (changes.foldl Change.apply s).record = s.record := by
  induction changes generalizing s with
  | nil => rfl
  | cons c rest ih =>
    rw [List.all_cons, Bool.and_eq_true] at h
    rw [List.foldl_cons, ih h.2]
    cases c with
    | status | answeredAt | endedAt | duration => cases h.1
    | _ => rfl

theorem conferenceName_change {changes : List Change} (h : changes.all Change.sparesRoom = true) (r : CallRow) :
    (CallRow.change changes r).segment.conferenceName = r.segment.conferenceName := by
  have hfold (s : Segment) : (changes.foldl Change.apply s).conferenceName = s.conferenceName := by
    induction changes generalizing s with
    | nil => rfl
    | cons c rest ih =>
      rw [List.all_cons, Bool.and_eq_true] at h
      rw [List.foldl_cons, ih h.2]
      cases c with
      | conferenceName => cases h.1
      | status v => cases v <;> rfl
      | _ => rfl
  exact hfold r.segment

theorem key_change (changes : List Change) (r : CallRow) :
    (CallRow.change changes r).segment.key = r.segment.key ∧
      (CallRow.change changes r).segment.revision = r.segment.revision + 1 := by
  obtain ⟨hid, htenant, hsid, hroot, hnumber, hrevision⟩ := Segment.foldl_apply_key changes r.segment
  refine ⟨?_, congrArg (· + 1) hrevision⟩
  show Segment.Key.mk _ _ _ _ _ = _
  rw [Segment.key]
  exact congr (congr (congr (congr (congrArg Segment.Key.mk hid) htenant) hsid) hroot) hnumber

/-! ## One write -/

section Write

variable {known : String → Prop} {crowded : Prop} {r r' : CallRow}

theorem Write.key (h : Write known crowded r r') :
    r'.segment.key = r.segment.key ∧ r'.segment.revision = r.segment.revision + 1 := by
  cases h with
  | deed => exact ⟨rfl, rfl⟩
  | columns changes => exact key_change changes r
  | handOn h now duration => exact key_change _ r
  | unreached now => exact key_change _ r

theorem Write.mono {known' : String → Prop} (hknown : ∀ leg, known leg → known' leg) (h : Write known crowded r r') :
    Write known' crowded r r' := by
  cases h with
  | deed d hread hlegs => exact .deed d hread fun leg hleg => hknown leg (hlegs leg hleg)
  | columns changes hspares => exact .columns changes hspares
  | handOn h now duration hopen => exact .handOn h now duration hopen
  | unreached now hlate => exact .unreached now hlate

/-- **The legs that ring behind a write** are of the kind that it registers, if those before are. -/
theorem Write.pending (h : Write known crowded r r') (hr : ∀ s, r.read = .ok s → ∀ leg ∈ s.scratch.pendingLegs, known leg) :
    ∀ s, r'.read = .ok s → ∀ leg ∈ s.scratch.pendingLegs, known leg := by
  have hcolumns (changes : List Change) (t : Segment) (ht : (CallRow.change changes r).read = .ok t) :
      ∀ leg ∈ t.scratch.pendingLegs, known leg := by
    obtain ⟨s, hs, rfl⟩ := read_of_change ht
    intro leg hleg
    refine hr s hs leg ?_
    rwa [← scratch_foldl_apply changes s]
  intro t ht
  cases h with
  | @deed s d hread hlegs =>
    rw [read_overwrite hread (Segment.overwriting_did s d)] at ht
    cases ht
    intro leg hleg
    rcases Segment.pending_did hleg with hold | hnew
    · exact hr s hread leg hold
    · exact hlegs leg hnew
  | columns changes => exact hcolumns changes t ht
  | handOn h now duration => exact hcolumns _ t ht
  | unreached now => exact hcolumns _ t ht

theorem record_of_read {s : Segment} (h : r.read = .ok s) : s.record = r.segment.record := by
  rw [segment_of_read h]
  rfl

/-- **A write of a closed row** leaves its record as it is, or overturns it to a failure. -/
theorem Write.record (hclosed : r.segment.isClosed = true) (h : Write known crowded r r') :
    r'.segment.record = r.segment.record ∨ Overturns crowded r r' ∧ r'.segment.status = .failed := by
  cases h with
  | @deed s d hread hlegs =>
    have hs : s.record = r.segment.record := record_of_read hread
    have hsclosed : s.isClosed = true := (congrArg (fun e => e.status.isClosed) hs).trans hclosed
    rcases Segment.record_did hsclosed d with ⟨-, hkept⟩ | ⟨hends, hfailed⟩
    · exact .inl (hkept.trans hs)
    · obtain ⟨hopen, hunanswered, hmove⟩ := Segment.open_of_endsCall hends
      exact .inr ⟨.claim d hread hends hopen hunanswered hmove, hfailed⟩
  | columns changes hspares => exact .inl (record_foldl_apply hspares r.segment)
  | handOn h now duration hopen => rw [hopen] at hclosed; cases hclosed
  | unreached now hlate => exact .inr ⟨.unreached now (hlate hclosed), rfl⟩

end Write

/-! ## Lives -/

section Writes

variable {known : String → Prop} {crowded : Prop} {r r' : CallRow}

/-- **A life leaves alone who a row is.** -/
theorem Writes.key (h : Writes known crowded r r') : r'.segment.key = r.segment.key := by
  induction h with
  | refl => rfl
  | tail _ hw ih => exact hw.key.1.trans ih

theorem Writes.revision_le (h : Writes known crowded r r') : r.segment.revision ≤ r'.segment.revision := by
  induction h with
  | refl => exact le_refl _
  | tail _ hw ih =>
    rw [hw.key.2]
    omega

/-- **A row at the revision that was read is the row that was read.** -/
theorem Writes.eq_of_revision (h : Writes known crowded r r') (hrevision : r'.segment.revision ≤ r.segment.revision) : r' = r := by
  cases h with
  | refl => rfl
  | tail hrun hw =>
    have := Writes.revision_le hrun
    have := hw.key.2
    omega

theorem Writes.mono {known' : String → Prop} (hknown : ∀ leg, known leg → known' leg) (h : Writes known crowded r r') :
    Writes known' crowded r r' :=
  Relation.ReflTransGen.mono (fun _ _ hw => hw.mono hknown) _ _ h

theorem Writes.pending (h : Writes known crowded r r') (hr : ∀ s, r.read = .ok s → ∀ leg ∈ s.scratch.pendingLegs, known leg) :
    ∀ s, r'.read = .ok s → ∀ leg ∈ s.scratch.pendingLegs, known leg := by
  induction h with
  | refl => exact hr
  | tail _ hw ih => exact hw.pending ih

/-- **How a row ended stays recorded**, up to a first write that overturns it to a failure. -/
theorem Writes.record (hclosed : r.segment.isClosed = true) (h : Writes known crowded r r') :
    r'.segment.record = r.segment.record ∨ ∃ a b, Writes known crowded r a ∧ a.segment.record = r.segment.record ∧
      Overturns crowded a b ∧ b.segment.status = .failed ∧ Writes known crowded b r' := by
  induction h with
  | refl => exact .inl rfl
  | @tail b c hrun hw ih =>
    -- Behind the first write that overturns the record nothing more is claimed of it.
    rcases ih with hkept | ⟨x, y, hx, hrecord, hturn, hfailed, hy⟩
    · have hb : b.segment.isClosed = true := (congrArg (fun e => e.status.isClosed) hkept).trans hclosed
      rcases hw.record hb with hkept' | ⟨hturn, hfailed⟩
      · exact .inl (hkept'.trans hkept)
      · exact .inr ⟨b, c, hrun, hkept, hturn, hfailed, .refl⟩
    · exact .inr ⟨x, y, hx, hrecord, hturn, hfailed, hy.tail hw⟩

/-- **A row that is closed stays closed.** -/
theorem Writes.closed (hclosed : r.segment.isClosed = true) (h : Writes known crowded r r') : r'.segment.isClosed = true := by
  induction h with
  | refl => exact hclosed
  | tail _ hw ih =>
    rcases hw.record ih with hkept | ⟨-, hfailed⟩
    · exact (congrArg (fun e => e.status.isClosed) hkept).trans ih
    · rw [Segment.isClosed, hfailed]
      rfl

/-- **A row that can be read** can be read behind every write. -/
theorem Writes.legible (hr : ∃ s, r.read = .ok s) (h : Writes known crowded r r') : ∃ s, r'.read = .ok s := by
  induction h with
  | refl => exact hr
  | tail _ hw ih =>
    obtain ⟨s, hs⟩ := ih
    cases hw with
    | @deed t d hread hlegs => exact ⟨_, read_overwrite hread (Segment.overwriting_did t d)⟩
    | columns changes => exact ⟨_, read_change hs changes⟩
    | handOn => exact ⟨_, read_change hs _⟩
    | unreached => exact ⟨_, read_change hs _⟩

end Writes

/-! ## What lasts -/

/-- What no write of a row takes back. -/
def Lasting (P : Segment → Prop) : Prop :=
  ∀ (known : String → Prop) (crowded : Prop) (r r' : CallRow) (s : Segment), Write known crowded r r' → r.read = .ok s →
    P s → ∃ t, r'.read = .ok t ∧ P t

/-- **What no write takes back lasts** as long as the row lives. -/
theorem Lasting.writes {P : Segment → Prop} (hP : Lasting P) {known : String → Prop} {crowded : Prop} {r r' : CallRow}
    {s : Segment} (h : Writes known crowded r r') (hread : r.read = .ok s) (hs : P s) : ∃ t, r'.read = .ok t ∧ P t := by
  induction h with
  | refl => exact ⟨s, hread, hs⟩
  | tail _ hw ih =>
    obtain ⟨t, ht, hPt⟩ := ih
    exact hP _ _ _ _ t hw ht hPt

/-- **What lasts does not hang on the revision** that a write counts up. -/
theorem Lasting.revised {P : Segment → Prop} (hP : Lasting P) {s : Segment} (hs : P s) : P (s.revised (s.revision + 1)) := by
  have hread : (CallRow.own s).read = .ok s := rfl
  obtain ⟨t, ht, hPt⟩ := hP (fun _ => True) True _ _ s (.columns [] rfl) hread hs
  rw [read_change hread []] at ht
  cases ht
  exact hPt

/-- **What deeds keep, and whatever keeps the scratch record and a closed segment closed, lasts.** -/
theorem lasting_of_did {P : Segment → Prop} (hdid : ∀ s d, P s → P (s.did d))
    (hkept : ∀ s t : Segment, t.scratch = s.scratch → (s.isClosed = true → t.isClosed = true) → P s → P t) : Lasting P := by
  intro known crowded r r' s h hread hs
  have hcolumns (changes : List Change) (hw : Write known crowded r (CallRow.change changes r)) :
      ∃ t, (CallRow.change changes r).read = .ok t ∧ P t := by
    have hread' := read_change hread changes
    refine ⟨_, hread', hkept s _ (scratch_foldl_apply changes s) (fun hclosed => ?_) hs⟩
    have hrow : r.segment.isClosed = true := (congrArg (fun e => e.status.isClosed) (record_of_read hread)).symm.trans hclosed
    have hlast := Writes.closed hrow (.single hw)
    exact (congrArg (fun e => e.status.isClosed) (record_of_read hread')).trans hlast
  cases h with
  | @deed u d hread' hlegs =>
    cases hread.symm.trans hread'
    exact ⟨_, read_overwrite hread (Segment.overwriting_did s d), hkept (s.did d) _ rfl id (hdid s d hs)⟩
  | columns changes hspares => exact hcolumns changes (.columns changes hspares)
  | handOn h now duration hopen => exact hcolumns _ (.handOn h now duration hopen)
  | unreached now hlate => exact hcolumns _ (.unreached now hlate)

/-- **In the life of a row the numbers of its attempts only grow.** -/
theorem lasting_of_attemptSeq_le {P : Int → Prop} (hP : ∀ {m n : Int}, P m → m ≤ n → P n) :
    Lasting fun s => P s.scratch.attemptSeq :=
  lasting_of_did (fun s d hs => hP hs (Segment.attemptSeq_did s d)) fun s t hscratch _ hs => by rwa [hscratch]

end CallRow

end Switchboard
