import Switchboard.Proofs.Call.Names
import Switchboard.Proofs.Service.Scoped
/-!
# Chains

The rows of a call form a chain: a call is opened with its first row, and each transfer closes the last row and adds the
next one.  So the rows are numbered in the order in which they were added, only the last one may be open, and whoever looks
for the newest segment finds that one (`latestRow_of_open`).  A chain stays one through every write that adds rows in this
way and leaves alone who rows are (`Chained.grows`).
-/
namespace Switchboard

open Store (sameId CallRow.handOn)

/-! ## Newest rows -/

namespace Store

variable {db db' : Store} {root : String} {rows : List CallRow} {r : CallRow}

/-- **The newest of rows that are numbered upwards is the last one.** -/
theorem newest_eq_getLast? : ∀ {rows : List CallRow}, rows.Pairwise (fun a b => a.segment.number < b.segment.number) →
    newest rows = rows.getLast?
  | [], _ => rfl
  | [r], _ => rfl
  | r :: s :: rest, h => by
    have hrest := newest_eq_getLast? (List.pairwise_cons.1 h).2
    obtain ⟨last, hlast⟩ := Option.isSome_iff_exists.1 (List.getLast?_isSome.2 (List.cons_ne_nil s rest))
    have hless := (List.pairwise_cons.1 h).1 last (List.mem_of_getLast? hlast)
    rw [newest, hrest, hlast]
    dsimp only
    rw [if_neg (not_le.2 hless), List.getLast?_cons_cons, hlast]

/-! ## Chains -/

/-- The rows of a call, in the order in which they were added. -/
def chainOf (root : String) (db : Store) : List CallRow := db.calls.filter fun r => r.segment.rootSid = root

/-- Rows that form the chain of a call. -/
structure Chain (root : String) (rows : List CallRow) : Prop where
  numbered : rows.map (fun r => r.segment.number) = (List.range rows.length).map Int.ofNat
  named : ∀ r ∈ rows, r.segment.callSid = Naming.segment root r.segment.number ∧ Naming.Unmarked root
  alike : ∀ r ∈ rows, ∀ a ∈ rows, a.segment.tenantId = r.segment.tenantId
  /-- A row that is open is the last one. -/
  last : ∀ r ∈ rows, r.segment.isClosed = false → r.segment.number + 1 = rows.length
  legible : ∀ r ∈ rows, ∃ s, r.read = .ok s

/-- The rows of every call form a chain. -/
def Chained (db : Store) : Prop := ∀ root, Chain root (chainOf root db)

theorem chained_of_no_calls (h : db.calls = []) : Chained db := by
  intro root
  unfold chainOf
  rw [h]
  have hnone {r : CallRow} (hr : r ∈ List.filter (fun r : CallRow => r.segment.rootSid = root) []) : False :=
    List.not_mem_nil hr
  exact ⟨rfl, fun _ hr => (hnone hr).elim, fun _ hr => (hnone hr).elim, fun _ hr => (hnone hr).elim,
    fun _ hr => (hnone hr).elim⟩

namespace Chain

variable (h : Chain root rows)
include h

theorem ascending : rows.Pairwise fun a b => a.segment.number < b.segment.number := by
  have hrange : ((List.range rows.length).map Int.ofNat).Pairwise (· < ·) :=
    List.pairwise_map.2 (List.pairwise_lt_range.imp fun hlt => Int.ofNat_lt.2 hlt)
  rw [← h.numbered] at hrange
  exact List.pairwise_map.1 hrange

theorem number_of_getElem? {i : Nat} (hr : rows[i]? = some r) : r.segment.number = i := by
  obtain ⟨hi, rfl⟩ := List.getElem?_eq_some_iff.1 hr
  have hboth := congrArg (·[i]?) h.numbered
  simpa [hi] using hboth

/-- **A row with the last number is the last one.** -/
theorem getLast?_of_number (hr : r ∈ rows) (hnumber : r.segment.number + 1 = rows.length) : rows.getLast? = some r := by
  obtain ⟨i, hi⟩ := List.getElem?_of_mem hr
  have := h.number_of_getElem? hi
  rw [List.getLast?_eq_getElem?, show rows.length - 1 = i by omega, hi]

/-- **Rows that live on** still form the chain. -/
theorem map {known : String → Prop} {crowded : Prop} {g : CallRow → CallRow}
    (hlives : ∀ r ∈ rows, CallRow.Writes known crowded r (g r)) : Chain root (rows.map g) where
  numbered := by
    rw [List.length_map, ← h.numbered, List.map_map]
    exact List.map_congr_left fun r hr => congrArg Segment.Key.number (hlives r hr).key
  named := by
    refine List.forall_mem_map.2 fun r hr => ?_
    rw [show (g r).segment.callSid = r.segment.callSid from congrArg Segment.Key.callSid (hlives r hr).key,
      show (g r).segment.number = r.segment.number from congrArg Segment.Key.number (hlives r hr).key]
    exact h.named r hr
  alike := by
    refine List.forall_mem_map.2 fun r hr => List.forall_mem_map.2 fun a ha => ?_
    rw [show (g r).segment.tenantId = r.segment.tenantId from congrArg Segment.Key.tenantId (hlives r hr).key,
      show (g a).segment.tenantId = a.segment.tenantId from congrArg Segment.Key.tenantId (hlives a ha).key]
    exact h.alike r hr a ha
  last := by
    refine List.forall_mem_map.2 fun r hr hopen => ?_
    rw [List.length_map, show (g r).segment.number = r.segment.number from congrArg Segment.Key.number (hlives r hr).key]
    refine h.last r hr (Bool.eq_false_iff.2 fun hc => ?_)
    rw [(hlives r hr).closed hc] at hopen
    cases hopen
  legible := List.forall_mem_map.2 fun r hr => (hlives r hr).legible (h.legible r hr)

/-- **The next row of a call** is added behind rows that are closed. -/
theorem append (hclosed : ∀ r ∈ rows, r.segment.isClosed = true) (hnumber : r.segment.number = rows.length)
    (hnamed : r.segment.callSid = Naming.segment root r.segment.number ∧ Naming.Unmarked root)
    (halike : ∀ a ∈ rows, a.segment.tenantId = r.segment.tenantId) (hlegible : ∃ s, r.read = .ok s) :
    Chain root (rows ++ [r]) where
  numbered := by
    rw [List.map_append, List.length_append, List.length_singleton, List.range_succ, List.map_append, h.numbered,
      List.map_singleton, List.map_singleton, hnumber]
    rfl
  named a ha := by
    rcases List.mem_append.1 ha with ha | ha
    · exact h.named a ha
    · rw [List.mem_singleton.1 ha]
      exact hnamed
  alike a ha b hb := by
    rcases List.mem_append.1 ha with ha | ha <;> rcases List.mem_append.1 hb with hb | hb
    · exact h.alike a ha b hb
    · rw [List.mem_singleton.1 hb, halike a ha]
    · rw [List.mem_singleton.1 ha, halike b hb]
    · rw [List.mem_singleton.1 ha, List.mem_singleton.1 hb]
  last a ha hopen := by
    rcases List.mem_append.1 ha with ha | ha
    · rw [hclosed a ha] at hopen
      cases hopen
    · rw [List.mem_singleton.1 ha, hnumber, List.length_append, List.length_singleton]
      rfl
  legible a ha := by
    rcases List.mem_append.1 ha with ha | ha
    · exact h.legible a ha
    · rw [List.mem_singleton.1 ha]
      exact hlegible

end Chain

/-- **The number of a call's next segment** is how many it has. -/
theorem nextNumber_eq (h : Chain root (chainOf root db)) (hrows : chainOf root db ≠ []) :
    nextNumber root db = (chainOf root db).length := by
  obtain ⟨r, hr⟩ := Option.isSome_iff_exists.1 (List.getLast?_isSome.2 hrows)
  have hnumber : r.segment.number = ((chainOf root db).length - 1 : Nat) := by
    rw [List.getLast?_eq_getElem?] at hr
    exact h.number_of_getElem? hr
  have hpos : 0 < (chainOf root db).length := List.length_pos_iff.2 hrows
  have hnewest : newest (db.calls.filter fun r => r.segment.rootSid = root) = some r :=
    (newest_eq_getLast? h.ascending).trans hr
  rw [nextNumber, hnewest, Option.map_some, Option.getD_some, hnumber]
  omega

/-- **Whoever looks for the newest segment of a call finds the one that is open.** -/
theorem latestRow_of_open (h : Chain root (chainOf root db)) (hr : r ∈ chainOf root db) (hopen : r.segment.isClosed = false)
    {tenant : Option String} (htenant : ownedBy tenant r.segment.tenantId = true) : db.latestRow root tenant = some r := by
  obtain ⟨front, hrows⟩ := List.getLast?_eq_some_iff.1 (h.getLast?_of_number hr (h.last r hr hopen))
  have hlive : r.segment.status ≠ .transferred := by
    intro hstatus
    rw [Segment.isClosed, hstatus] at hopen
    cases hopen
  have hfilter : (db.calls.filter fun r =>
      r.segment.rootSid = root && r.segment.status ≠ .transferred && ownedBy tenant r.segment.tenantId) =
      (chainOf root db).filter fun r => r.segment.status ≠ .transferred && ownedBy tenant r.segment.tenantId := by
    rw [chainOf, List.filter_filter]
    refine List.filter_congr fun a _ => ?_
    rw [Bool.and_assoc, Bool.and_comm]
  have hsorted := h.ascending.sublist (List.filter_sublist (p := fun r : CallRow =>
    r.segment.status ≠ .transferred && ownedBy tenant r.segment.tenantId))
  unfold latestRow
  rw [hfilter, newest_eq_getLast? hsorted, hrows, List.filter_append, List.filter_cons_of_pos (by simp [hlive, htenant]),
    List.filter_nil, List.getLast?_append]
  rfl

/-! ## How calls are written -/

/-- A write of calls that keeps chains: rows keep who they are, the first row of a call is added, or the open row of a call
is closed and the call's next row is added. -/
inductive Grows (db db' : Store) : Prop where
  | kept (g : CallRow → CallRow) (hcalls : db'.calls = db.calls.map g)
    (hkey : ∀ r ∈ db.calls, (g r).segment.key = r.segment.key) : Grows db db'
  | opened (r : CallRow) (hcalls : db'.calls = db.calls ++ [r]) (hnumber : r.segment.number = 0)
    (hroot : r.segment.rootSid = r.segment.callSid) (hunmarked : Naming.Unmarked r.segment.callSid)
    (hnew : ∀ a ∈ db.calls, a.segment.callSid ≠ r.segment.callSid) (hlegible : ∃ s, r.read = .ok s) : Grows db db'
  | handedOn (r r' : CallRow) (g : CallRow → CallRow) (hcalls : db'.calls = db.calls.map g ++ [r'])
    (hkey : ∀ a ∈ db.calls, (g a).segment.key = a.segment.key) (hr : r ∈ db.calls) (hopen : r.segment.isClosed = false)
    (hclosed : (g r).segment.isClosed = true) (hroot : r'.segment.rootSid = r.segment.rootSid)
    (htenant : r'.segment.tenantId = r.segment.tenantId) (hnumber : r'.segment.number = db.nextNumber r.segment.rootSid)
    (hsid : r'.segment.callSid = Naming.transfer r.segment.rootSid r'.segment.number)
    (hlegible : ∃ s, r'.read = .ok s) : Grows db db'

theorem Grows.of_calls (h : db'.calls = db.calls) : Grows db db' :=
  .kept id (h.trans (List.map_id _).symm) fun _ _ => rfl

theorem Grows.updateCalls (p : CallRow → Bool) {g : CallRow → CallRow} (hkey : ∀ r, (g r).segment.key = r.segment.key) :
    Grows db (db.updateCalls p g) := by
  refine .kept (fun r => if p r then g r else r) rfl fun r _ => ?_
  split
  · exact hkey r
  · rfl

/-- What the opening of a call does: nothing, or it adds the first row of a call whose id no row has. -/
theorem insertFirst_eq_ok {s : Segment} {row : Option CallRow} (hok : db.insertFirst s = .ok (row, db')) :
    db' = db ∨ ∃ r, (∀ a ∈ db.calls, a.segment.callSid ≠ s.callSid) ∧
      db.insertCall ⟨s, some (.arr [], .obj [])⟩ = .ok (r, db') := by
  unfold Store.insertFirst at hok
  split at hok
  · cases hok
    exact .inl rfl
  · rename_i hfree
    cases hinsert : db.insertCall ⟨s, some (.arr [], .obj [])⟩ with
    | error e =>
      rw [hinsert] at hok
      cases hok
    | ok p =>
      rw [hinsert] at hok
      cases hok
      exact .inr ⟨p.1, fun a ha hsid => hfree (List.find?_isSome.2 ⟨a, ha, decide_eq_true hsid⟩), rfl⟩

theorem Identified.insertFirst {s : Segment} {row : Option CallRow} (h : db.Identified)
    (hok : db.insertFirst s = .ok (row, db')) : db'.Identified := by
  rcases insertFirst_eq_ok hok with rfl | ⟨r, -, hinsert⟩
  · exact h
  · exact h.insertCall hinsert

theorem Grows.insertFirst {s : Segment} {row : Option CallRow} (hroot : s.rootSid = s.callSid) (hnumber : s.number = 0)
    (hunmarked : Naming.Unmarked s.callSid) (hok : db.insertFirst s = .ok (row, db')) : Grows db db' := by
  rcases insertFirst_eq_ok hok with rfl | ⟨r, hnew, hinsert⟩
  · exact .of_calls rfl
  · obtain ⟨-, hrow, hdb⟩ := insertCall_eq_ok hinsert
    have hcalls : db'.calls = db.calls ++ [r] := congrArg Store.calls hdb
    subst hrow
    exact .opened _ hcalls hnumber hroot hunmarked hnew ⟨_, rfl⟩

theorem Identified.handOver {active : Segment} {handover : Handover} {scratch : Scratch} {now : Time.Instant}
    {rows : CallRow × CallRow} (h : db.Identified) (hok : db.handOver active handover scratch now = .ok (rows, db')) :
    db'.Identified := by
  obtain ⟨r, s, -, -, -, -, -, hinsert⟩ := handOver_eq_ok hok
  exact (h.updateCalls _ fun a => (CallRow.change_key a _).1).insertCall hinsert

/-- **Handing a call on** closes the open row and adds the next one, if the segment is known by the key of its row. -/
theorem Grows.handOver {active : Segment} {handover : Handover} {scratch : Scratch} {now : Time.Instant}
    {closed opened : CallRow}
    (hkey : ∀ a ∈ db.calls, sameId a.segment.id active.id = true → a.segment.key = active.key)
    (hok : db.handOver active handover scratch now = .ok ((closed, opened), db')) : Grows db db' := by
  obtain ⟨r, s, hfind, hopen, -, -, -, hinsert⟩ := handOver_eq_ok hok
  obtain ⟨-, hrow, hdb⟩ := insertCall_eq_ok hinsert
  have hmem : r ∈ db.calls := List.mem_of_find?_eq_some hfind
  have hid : sameId r.segment.id active.id = true := by
    have hfound := List.find?_some hfind
    rw [Bool.and_eq_true] at hfound
    exact hfound.1
  have hroot : active.rootSid = r.segment.rootSid := (congrArg Segment.Key.rootSid (hkey r hmem hid)).symm
  refine .handedOn r opened _ (congrArg Store.calls hdb) (fun a _ => ?_) hmem hopen ?_ ?_ ?_ ?_ ?_ ⟨_, by rw [hrow]; rfl⟩
  · split
    · exact (CallRow.key_change _ a).1
    · rfl
  · rw [if_pos hid]
    rfl
  · rw [hrow]
    exact hroot
  · rw [hrow]
    exact (congrArg Segment.Key.tenantId (hkey r hmem hid)).symm
  · rw [hrow, ← hroot]
    rfl
  · rw [hrow, ← hroot]
    rfl

/-- Rows that were there live on under their keys. -/
def Lives (db db' : Store) : Prop :=
  ∀ r ∈ db.calls, ∀ r' ∈ db'.calls, r'.segment.key = r.segment.key → CallRow.Writes (fun _ => True) True r r'

theorem chainOf_map {g : CallRow → CallRow} (hcalls : db'.calls = db.calls.map g)
    (hkey : ∀ r ∈ db.calls, (g r).segment.key = r.segment.key) : chainOf root db' = (chainOf root db).map g := by
  rw [chainOf, chainOf, hcalls, List.filter_map]
  refine congrArg _ (List.filter_congr fun r hr => ?_)
  rw [Function.comp_apply, show (g r).segment.rootSid = r.segment.rootSid from congrArg Segment.Key.rootSid (hkey r hr)]

theorem chainOf_append {calls : List CallRow} (hcalls : db'.calls = calls ++ [r]) :
    chainOf root db' = (calls.filter fun a => a.segment.rootSid = root) ++ if r.segment.rootSid = root then [r] else [] := by
  rw [chainOf, hcalls, List.filter_append]
  congr 1
  split
  · rename_i h
    exact List.filter_cons_of_pos (decide_eq_true h)
  · rename_i h
    exact List.filter_cons_of_neg (by simpa using h)

theorem mem_chainOf : r ∈ chainOf root db ↔ r ∈ db.calls ∧ r.segment.rootSid = root := by
  rw [chainOf, List.mem_filter, decide_eq_true_eq]

/-- **A call whose id no row has** has no rows. -/
theorem Chain.eq_nil_of_new (h : Chain root (chainOf root db)) (hnew : ∀ a ∈ db.calls, a.segment.callSid ≠ root) :
    chainOf root db = [] := by
  cases hrows : chainOf root db with
  | nil => rfl
  | cons first rest =>
    have hfirst : first ∈ chainOf root db := hrows ▸ List.mem_cons_self
    have hzero : first.segment.number = 0 := h.number_of_getElem? (i := 0) (by rw [hrows]; rfl)
    have hsid := (h.named first hfirst).1
    rw [hzero] at hsid
    exact absurd hsid (hnew first (mem_chainOf.1 hfirst).1)

theorem Lives.of_mem (h : Lives db db') {g : CallRow → CallRow} (hmem : ∀ r ∈ db.calls, g r ∈ db'.calls)
    (hkey : ∀ r ∈ db.calls, (g r).segment.key = r.segment.key) :
    ∀ r ∈ chainOf root db, CallRow.Writes (fun _ => True) True r (g r) := by
  intro r hr
  have hr := (mem_chainOf.1 hr).1
  exact h r hr _ (hmem r hr) (hkey r hr)

/-- **Every write of calls keeps chains**, as far as rows live on. -/
theorem Chained.grows (h : Chained db) (hgrows : Grows db db') (hlives : Lives db db') : Chained db' := by
  intro root
  cases hgrows with
  | kept g hcalls hkey =>
    rw [chainOf_map hcalls hkey]
    exact (h root).map (hlives.of_mem (fun r hr => hcalls ▸ List.mem_map_of_mem hr) hkey)
  | opened r hcalls hnumber hroot hunmarked hnew hlegible =>
    rw [chainOf_append hcalls]
    show Chain root (chainOf root db ++ _)
    split
    · rename_i hsame
      have hsid : r.segment.callSid = root := hroot.symm.trans hsame
      rw [hsid] at hunmarked hnew
      have hchain := h root
      have hnil := hchain.eq_nil_of_new hnew
      rw [hnil] at hchain ⊢
      refine hchain.append (fun _ ha => nomatch ha) hnumber ⟨?_, hunmarked⟩ (fun _ ha => nomatch ha) hlegible
      rw [hnumber]
      exact hsid
    · rw [List.append_nil]
      exact h root
  | handedOn r r' g hcalls hkey hr hopen hclosed hroot htenant hnumber hsid hlegible =>
    have hlife : ∀ a ∈ chainOf root db, CallRow.Writes (fun _ => True) True a (g a) :=
      hlives.of_mem (fun a ha => hcalls ▸ List.mem_append_left _ (List.mem_map_of_mem ha)) hkey
    have hmap : chainOf root { db with calls := db.calls.map g } = (chainOf root db).map g := chainOf_map rfl hkey
    have hkept := (h root).map hlife
    rw [chainOf_append hcalls]
    show Chain root (chainOf root { db with calls := db.calls.map g } ++ _)
    rw [hmap]
    split
    · rename_i hsame
      rw [hroot] at hsame
      have hmem : r ∈ chainOf root db := mem_chainOf.2 ⟨hr, hsame⟩
      have hlen : r'.segment.number = (chainOf root db).length := by
        rw [hnumber, hsame]
        exact nextNumber_eq (h root) (List.ne_nil_of_mem hmem)
      have hpos : 0 < (chainOf root db).length := List.length_pos_of_mem hmem
      refine hkept.append (List.forall_mem_map.2 fun a ha => ?_) ?_ ⟨?_, ((h root).named r hmem).2⟩ ?_ hlegible
      · cases hc : a.segment.isClosed with
        | true => exact (hlife a ha).closed hc
        | false =>
          -- Both are open, so both are the last row.
          have hlast := (h root).getLast?_of_number ha ((h root).last a ha hc)
          rw [(h root).getLast?_of_number hmem ((h root).last r hmem hopen)] at hlast
          exact Option.some.inj hlast ▸ hclosed
      · rw [hlen, List.length_map]
      · rw [Naming.segment, if_neg (by rw [hlen]; omega), ← hsame]
        exact hsid
      · refine List.forall_mem_map.2 fun a ha => ?_
        rw [htenant, show (g a).segment.tenantId = a.segment.tenantId from congrArg Segment.Key.tenantId (hlife a ha).key]
        exact (h root).alike r hmem a ha
    · rw [List.append_nil]
      exact hkept

end Store

end Switchboard
