import Switchboard.Proofs.Service.HandedOn
import Switchboard.Proofs.Store.Chains
/-!
# Handing a call on

One step closes the row of the active segment and adds the row of the next one, or it is refused and changes nothing
(`Identified.handOver_of_takes`, `Identified.handOver_of_not_takes`, `handOver_of_closed`).  Nobody else has the id or the
number of the row that was added last (`EndsIn`), so it can be written for itself.  Where calls are chains nobody has its
name either (`Chained.takesHandover_iff`).
-/
namespace Switchboard

open Time (Instant)

namespace Store

/-! ## The row that was added last -/

theorem map_of_others {p : CallRow → Bool} {g : CallRow → CallRow} {rows : List CallRow}
    (hrows : ∀ r ∈ rows, p r = false) : rows.map (fun r => if p r then g r else r) = rows :=
  (List.map_congr_left fun r hr => if_neg (by rw [hrows r hr]; exact Bool.false_ne_true)).trans (List.map_id _)

/-- The last row is that of a segment, and the only one with its id or its number in the call. -/
structure EndsIn (db : Store) (rows : List CallRow) (u : Segment) : Prop where
  calls : db.calls = rows ++ [.own u]
  keyed : rows.Pairwise fun a b => sameId a.segment.id b.segment.id = false
  apart : ∀ r ∈ rows, sameId r.segment.id u.id = false
  numbered : ∀ r ∈ rows, r.segment.rootSid = u.rootSid → r.segment.number ≠ u.number
  fits : fits u.number = true
  rooted : Naming.root u.rootSid = u.rootSid

/-- A store with other rows of calls. -/
def withCalls (db : Store) (rows : List CallRow) : Store := { db with calls := rows }

namespace EndsIn

variable {db : Store} {rows : List CallRow} {u t : Segment}

theorem next (h : db.EndsIn rows u) (hid : t.id = u.id) (hroot : t.rootSid = u.rootSid) (hnumber : t.number = u.number) :
    (db.withCalls (rows ++ [.own t])).EndsIn rows t where
  calls := rfl
  keyed := h.keyed
  apart := by rw [hid]; exact h.apart
  numbered := by rw [hroot, hnumber]; exact h.numbered
  fits := by rw [hnumber]; exact h.fits
  rooted := by rw [hroot]; exact h.rooted

/-- **Who looks for the last row** finds it, where no other is meant. -/
theorem find? (h : db.EndsIn rows u) {p : CallRow → Bool} (hrows : ∀ r ∈ rows, p r = false)
    (hlast : p (.own u) = true) : db.calls.find? p = some (.own u) := by
  have hnone : rows.find? p = none :=
    List.find?_eq_none.2 fun r hr => by rw [hrows r hr]; exact Bool.false_ne_true
  rw [h.calls, List.find?_append, hnone, Option.none_or, List.find?_singleton, if_pos hlast]

theorem holds (h : db.EndsIn rows u) (hrange : u.duration.all Store.fits = true) : db.Holds u := by
  refine ⟨?_, h.fits, hrange, h.rooted, .own u, h.find? (fun r hr => ?_) ?_, rfl⟩
  · rw [Keyed, h.calls, List.pairwise_append]
    refine ⟨h.keyed, List.pairwise_singleton _ _, fun a ha b hb => ?_⟩
    rw [List.mem_singleton.1 hb]
    exact h.apart a ha
  · rw [Bool.and_eq_false_iff, Bool.and_eq_false_iff]
    by_cases hroot : r.segment.rootSid = u.rootSid
    · exact .inl (.inr (decide_eq_false (h.numbered r hr hroot)))
    · exact .inl (.inl (decide_eq_false hroot))
  · simp [CallRow.own, ownedBy]

/-- **A write of the last row** leaves the others as they are. -/
theorem updateCalls (h : db.EndsIn rows u) {p : CallRow → Bool} (g : CallRow → CallRow) (hrows : ∀ r ∈ rows, p r = false)
    (hlast : p (.own u) = true) : db.updateCalls p g = db.withCalls (rows ++ [g (.own u)]) := by
  unfold Store.updateCalls withCalls
  rw [h.calls, List.map_append, List.map_singleton, if_pos hlast]
  rw [map_of_others hrows]

end EndsIn

/-! ## The number of the next segment -/

theorem newest_eq_none : ∀ {rows : List CallRow}, newest rows = none → rows = []
  | [], _ => rfl
  | a :: rest, h => by
    rw [newest] at h
    split at h
    · cases h
    · split at h <;> cases h

theorem number_le_newest {r s : CallRow} : ∀ {rows : List CallRow}, newest rows = some s → r ∈ rows →
    r.segment.number ≤ s.segment.number
  | a :: rest, hs, hr => by
    rw [newest] at hs
    cases hrest : newest rest with
    | none =>
      rw [hrest] at hs
      cases hs
      rw [newest_eq_none hrest, List.mem_singleton] at hr
      rw [hr]
    | some t =>
      have hle := fun hr => number_le_newest (r := r) hrest hr
      rw [hrest] at hs
      dsimp only at hs
      split at hs
      · rename_i hta
        cases hs
        rcases List.mem_cons.1 hr with rfl | hr
        · exact le_refl _
        · exact (hle hr).trans hta
      · rename_i hta
        cases hs
        rcases List.mem_cons.1 hr with rfl | hr
        · exact (not_le.1 hta).le
        · exact hle hr

/-- **The number of a call's next segment** is one more than the greatest that the call has. -/
theorem nextNumber_eq_greatest {db : Store} {r : CallRow} (hr : r ∈ db.calls) :
    ∃ q ∈ db.calls, q.segment.rootSid = r.segment.rootSid ∧ db.nextNumber r.segment.rootSid = q.segment.number + 1 ∧
      ∀ a ∈ db.calls, a.segment.rootSid = r.segment.rootSid → a.segment.number ≤ q.segment.number := by
  have hmem {a : CallRow} (ha : a ∈ db.calls) (hroot : a.segment.rootSid = r.segment.rootSid) :
      a ∈ db.calls.filter fun a => a.segment.rootSid = r.segment.rootSid := List.mem_filter.2 ⟨ha, decide_eq_true hroot⟩
  cases hnewest : newest (db.calls.filter fun a => a.segment.rootSid = r.segment.rootSid) with
  | none =>
    have hrow := hmem hr rfl
    rw [newest_eq_none hnewest] at hrow
    cases hrow
  | some q =>
    obtain ⟨hq, hroot⟩ := List.mem_filter.1 (mem_of_newest hnewest)
    refine ⟨q, hq, of_decide_eq_true hroot, ?_, fun a ha hroot => number_le_newest hnewest (hmem ha hroot)⟩
    rw [nextNumber, hnewest]
    rfl

/-! ## Closing one segment and opening the next -/

/-- What the database asks of a call that is handed on: the next number and the duration fit their columns, and nobody has
the name of the next segment. -/
structure TakesHandover (db : Store) (s : Segment) (now : Instant) : Prop where
  number : fits (db.nextNumber s.rootSid) = true
  duration : fits (s.elapsed (.utc now)) = true
  named : ∀ r ∈ db.calls, r.segment.callSid ≠ Naming.transfer s.rootSid (db.nextNumber s.rootSid)

/-- The rows of a store, that of a segment closed as handed on. -/
def closing (db : Store) (s : Segment) (h : Handover) (now : Instant) : List CallRow :=
  (db.updateCalls (fun r => sameId r.segment.id s.id) (CallRow.handOn h now (s.elapsed (.utc now)))).calls

/-- The next segment of a call. -/
def opening (db : Store) (s : Segment) (h : Handover) (scratch : Scratch) (now : Instant) : Segment :=
  { successor s (db.nextNumber s.rootSid) h scratch now with id := idAfter db.counted }

/-- The store behind the handing on of a call. -/
def handingOver (db : Store) (s : Segment) (h : Handover) (scratch : Scratch) (now : Instant) : Store :=
  { db with calls := db.closing s h now ++ [.own (db.opening s h scratch now)], counted := db.counted + 1 }

variable {db : Store} {r : CallRow} {s : Segment} {h : Handover} {scratch : Scratch} {now : Instant}

theorem key_of_mem_closing {a : CallRow} (ha : a ∈ db.closing s h now) :
    ∃ b ∈ db.calls, a.segment.key = b.segment.key := by
  obtain ⟨b, hb, rfl⟩ := List.mem_map.1 ha
  refine ⟨b, hb, ?_⟩
  split
  · exact (CallRow.key_change _ b).1
  · rfl

/-- **Nobody has the number of the next segment.** -/
theorem number_ne_of_mem_closing (hr : r ∈ db.calls) (hread : r.read = .ok s) {a : CallRow} (ha : a ∈ db.closing s h now)
    (hroot : a.segment.rootSid = s.rootSid) : a.segment.number ≠ db.nextNumber s.rootSid := by
  obtain ⟨b, hb, hkey⟩ := key_of_mem_closing ha
  have hsame : s.rootSid = r.segment.rootSid := by rw [CallRow.segment_of_read hread]
  obtain ⟨q, -, -, hnext, hgreatest⟩ := nextNumber_eq_greatest hr
  have hle := hgreatest b hb ((congrArg Segment.Key.rootSid hkey).symm.trans (hroot.trans hsame))
  have hnumber : a.segment.number = b.segment.number := congrArg Segment.Key.number hkey
  rw [hsame, hnext, hnumber]
  omega

/-- **A name that nobody has** is all that the row of the next segment needs. -/
theorem isNew_opening (hr : r ∈ db.calls) (hread : r.read = .ok s) (h h' : Handover) (scratch : Scratch) (now : Instant) :
    ((db.updateCalls (fun r => sameId r.segment.id s.id) (CallRow.handOn h now (s.elapsed (.utc now)))).isNew
      (successor s (db.nextNumber s.rootSid) h' scratch now) = true ↔
      ∀ r ∈ db.calls, r.segment.callSid ≠ Naming.transfer s.rootSid (db.nextNumber s.rootSid)) := by
  have hkey {a : CallRow} (ha : a ∈ db.calls) : ∃ b ∈ db.closing s h now, b.segment.key = a.segment.key :=
    ⟨_, List.mem_map_of_mem ha, by split; exacts [(CallRow.key_change _ a).1, rfl]⟩
  rw [isNew, List.all_eq_true]
  constructor
  · intro hall a ha
    obtain ⟨b, hb, hkey⟩ := hkey ha
    have hnew := hall b hb
    rw [Bool.and_eq_true] at hnew
    rw [← show b.segment.callSid = a.segment.callSid from congrArg Segment.Key.callSid hkey]
    exact of_decide_eq_true hnew.1
  · intro hnamed b hb
    obtain ⟨a, ha, hkey⟩ := key_of_mem_closing hb
    rw [Bool.and_eq_true, Bool.not_eq_true', Bool.and_eq_false_iff]
    refine ⟨decide_eq_true ?_, ?_⟩
    · rw [show b.segment.callSid = a.segment.callSid from congrArg Segment.Key.callSid hkey]
      exact hnamed a ha
    · by_cases hroot : b.segment.rootSid = s.rootSid
      · exact .inr (decide_eq_false (number_ne_of_mem_closing hr hread hb hroot))
      · exact .inl (decide_eq_false hroot)

section Stored

variable (hdb : db.Identified) (hr : r ∈ db.calls) (hread : r.read = .ok s)
include hdb hr hread

theorem Identified.rowOfId : db.rowOfId s.id none = some r := by
  refine hdb.keyed.rowOfId hr ?_
  rw [show r.segment.id = s.id by rw [CallRow.segment_of_read hread]]
  exact sameId_self s.id

/-- **Only the row of the segment is closed.** -/
theorem Identified.closing_eq (h : Handover) (now : Instant) : ∃ front back r', db.calls = front ++ r :: back ∧
    db.closing s h now = front ++ r' :: back ∧ r'.read = .ok (s.handedOver h now) := by
  obtain ⟨front, back, hcalls⟩ := List.append_of_mem hr
  have hid : r.segment.id = s.id := by rw [CallRow.segment_of_read hread]
  have hkeyed := hdb.keyed
  rw [Keyed, hcalls, List.pairwise_append, List.pairwise_cons] at hkeyed
  obtain ⟨-, ⟨hback, -⟩, hfront⟩ := hkeyed
  refine ⟨front, back, _, hcalls, ?_, CallRow.read_handOn hread h now⟩
  rw [closing, Store.updateCalls, hcalls, List.map_append, List.map_cons, hid, if_pos (sameId_self s.id),
    map_of_others fun a ha => hid ▸ hfront a ha r List.mem_cons_self, map_of_others fun a ha => ?_]
  rw [sameId_comm, ← hid]
  exact hback a ha

/-- **The next segment of a call is the one that was added last.** -/
theorem Identified.endsIn_handingOver (htakes : db.TakesHandover s now) (hrooted : Naming.root s.rootSid = s.rootSid)
    (h : Handover) (scratch : Scratch) :
    (db.handingOver s h scratch now).EndsIn (db.closing s h now) (db.opening s h scratch now) where
  calls := rfl
  keyed := (hdb.updateCalls _ fun a => (CallRow.change_key a _).1).keyed
  apart a ha := by
    obtain ⟨b, hb, hkey⟩ := key_of_mem_closing ha
    rw [show a.segment.id = b.segment.id from congrArg Segment.Key.id hkey]
    exact hdb.fresh db.counted (Nat.le_refl _) b hb
  numbered _ ha hroot := number_ne_of_mem_closing hr hread ha hroot
  fits := htakes.number
  rooted := hrooted

/-- **A call is handed on in one step**, if the database takes it. -/
theorem Identified.handOver_of_open (hopen : s.isClosed = false) : db.handOver s h scratch now =
    if !fits (db.nextNumber s.rootSid) || !fits (s.elapsed (.utc now)) then .error (.refused .range)
    else if ∀ r ∈ db.calls, r.segment.callSid ≠ Naming.transfer s.rootSid (db.nextNumber s.rootSid) then
      .ok ((CallRow.handOn h now (s.elapsed (.utc now)) r, .own (db.opening s h scratch now)),
        db.handingOver s h scratch now)
    else .error (.refused .duplicate) := by
  have hclosed : ¬ r.segment.isClosed = true := by
    rw [show r.segment.isClosed = s.isClosed by rw [CallRow.segment_of_read hread]; rfl, hopen]
    exact Bool.false_ne_true
  have hnew := isNew_opening hr hread h h scratch now
  unfold Store.handOver
  rw [hdb.rowOfId hr hread]
  dsimp only
  rw [if_neg hclosed, hread]
  dsimp only
  by_cases hrange : (!fits (db.nextNumber s.rootSid) || !fits (s.elapsed (.utc now))) = true
  · rw [if_pos hrange, if_pos hrange]
  · rw [if_neg hrange, if_neg hrange, Store.insertCall, CallRow.own]
    by_cases hnamed : ∀ r ∈ db.calls, r.segment.callSid ≠ Naming.transfer s.rootSid (db.nextNumber s.rootSid)
    · rw [if_pos hnamed, hnew.2 hnamed]
      rfl
    · rw [if_neg hnamed, Bool.eq_false_iff.2 fun hall => hnamed (hnew.1 hall)]
      rfl

/-- **A call that the database takes** is handed on, and the rows that are given back read as the segments. -/
theorem Identified.handOver_of_takes (hopen : s.isClosed = false) (htakes : db.TakesHandover s now) (h : Handover)
    (scratch : Scratch) : ∃ closed, db.handOver s h scratch now =
      .ok ((closed, .own (db.opening s h scratch now)), db.handingOver s h scratch now) ∧
      closed.read = .ok (s.handedOver h now) := by
  refine ⟨_, ?_, CallRow.read_handOn hread h now⟩
  rw [hdb.handOver_of_open hr hread hopen, if_neg (by rw [htakes.number, htakes.duration]; exact Bool.false_ne_true),
    if_pos htakes.named]

theorem Identified.handOver_of_not_takes (hopen : s.isClosed = false) (htakes : ¬ db.TakesHandover s now) (h : Handover)
    (scratch : Scratch) : ∃ e, db.handOver s h scratch now = .error (.refused e) := by
  rw [hdb.handOver_of_open hr hread hopen]
  split
  · exact ⟨_, rfl⟩
  · rename_i hrange
    simp only [Bool.or_eq_true, Bool.not_eq_true', not_or, Bool.not_eq_false] at hrange
    rw [if_neg fun hnamed => htakes ⟨hrange.1, hrange.2, hnamed⟩]
    exact ⟨_, rfl⟩

end Stored

/-- **A segment that was closed meanwhile** is not handed on. -/
theorem handOver_of_closed (hclosed : ∀ r ∈ db.calls, sameId r.segment.id s.id = true → r.segment.isClosed = true)
    (h : Handover) (scratch : Scratch) (now : Instant) :
    ∃ status, db.handOver s h scratch now = .error (.closed status) := by
  unfold handOver
  cases hrow : db.rowOfId s.id none with
  | none => exact ⟨none, rfl⟩
  | some r =>
    have hfound := List.find?_some hrow
    rw [Bool.and_eq_true] at hfound
    dsimp only
    rw [if_pos (hclosed r (List.mem_of_find?_eq_some hrow) hfound.1)]
    exact ⟨_, rfl⟩

/-! ## Calls that are chains -/

theorem Chain.number_nonneg {root : String} {rows : List CallRow} (h : Chain root rows) (hr : r ∈ rows) :
    0 ≤ r.segment.number := by
  obtain ⟨i, hi⟩ := List.getElem?_of_mem hr
  rw [h.number_of_getElem? hi]
  exact Int.natCast_nonneg i

/-- **Where calls are chains**, only numbers that do not fit keep the database from handing a call on. -/
theorem Chained.takesHandover_iff (hchained : Chained db) (hr : r ∈ db.calls) (hread : r.read = .ok s) :
    db.TakesHandover s now ↔
      fits (db.nextNumber s.rootSid) = true ∧ fits (s.elapsed (.utc now)) = true := by
  refine ⟨fun htakes => ⟨htakes.number, htakes.duration⟩, fun ⟨hnumber, hduration⟩ => ⟨hnumber, hduration, ?_⟩⟩
  intro q hq hsid
  have hroot : s.rootSid = r.segment.rootSid := by rw [CallRow.segment_of_read hread]
  obtain ⟨g, hg, hgroot, hnext, hgreatest⟩ := nextNumber_eq_greatest hr
  have hnonneg := (hchained _).number_nonneg (mem_chainOf.2 ⟨hg, rfl⟩)
  obtain ⟨hnamed, hunmarked⟩ := (hchained _).named q (mem_chainOf.2 ⟨hq, rfl⟩)
  rw [hroot, hnext] at hsid
  have hsegment : Naming.segment q.segment.rootSid q.segment.number =
      Naming.segment r.segment.rootSid (g.segment.number + 1) := by
    rw [← hnamed, hsid, Naming.segment, if_neg (by omega)]
  obtain ⟨hsame, hnumbers⟩ :=
    Naming.segment_inj hunmarked ((hchained _).named r (mem_chainOf.2 ⟨hr, rfl⟩)).2 hsegment
  have hle := hgreatest q hq hsame
  omega

end Store

end Switchboard
