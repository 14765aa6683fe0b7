import Switchboard.Proofs.Service.Scope
import Switchboard.Proofs.Text.Split
import Switchboard.Service.Transfer
/-!
# Reading and writing within a scope

What each statement on calls and each order to the telephone provider needs to stay within a scope, and what is known behind
it.  A row that is looked up was seen.  A change of a segment needs that the call is one of the scope, and is a deed on a
segment that was seen; an update of columns needs that the segment was seen and is of the scope.  A call is opened within a
scope if the calls that share its id or its root are of the scope.
-/
namespace Switchboard

open Provider (Request)
open Store (sameId isAt Change CallRow.overwrite CallRow.change CallRow.handOn)

/-! ## Root call ids -/

theorem Text.before_prefix {α : Type} [DecidableEq α] (mark : List α) : ∀ xs : List α, before mark xs <+: xs
  | [] => List.nil_prefix
  | x :: xs => by
    rw [before]
    split
    · exact List.nil_prefix
    · exact List.cons_prefix_cons.mpr ⟨rfl, before_prefix mark xs⟩

theorem Text.before_before {α : Type} [DecidableEq α] (mark : List α) : ∀ xs : List α,
    before mark (before mark xs) = before mark xs
  | [] => rfl
  | x :: xs => by
    by_cases h : (stripFront? mark (x :: xs)).isSome = true
    · rw [before, if_pos h]
      rfl
    · rw [before, if_neg h, before, if_neg, before_before mark xs]
      rw [stripFront?_isSome] at h ⊢
      exact fun hp => h (hp.trans (List.cons_prefix_cons.mpr ⟨rfl, before_prefix mark xs⟩))

/-- **The root of a root call id** is the id itself. -/
theorem Naming.root_root (sid : String) : root (root sid) = root sid := by
  unfold root
  rw [String.toList_ofList, Text.before_before]

theorem CallRow.key_of_read {r : CallRow} {s : Segment} (h : r.read = .ok s) : r.segment.key = s.key := by
  rw [segment_of_read h]
  rfl

theorem Store.mem_of_newest {r : CallRow} : ∀ {rows : List CallRow}, newest rows = some r → r ∈ rows
  | a :: rest, h => by
    rw [newest] at h
    split at h
    · cases h
      exact List.mem_cons_self
    · rename_i b hb
      split at h
      · cases h
        exact List.mem_cons_self
      · cases h
        exact List.mem_cons_of_mem _ (mem_of_newest hb)

namespace Scope

variable {S : Scope} {st st' : State} {s : Segment}

/-! ## What was seen -/

/-- A segment is of the scope, and its call is there. -/
structure Own (S : Scope) (st : State) (s : Segment) : Prop where
  mine : S.mine s.tenantId = true
  chain : S.Chain st s.rootSid

theorem Evolves.own (h : S.Evolves st st') (hs : S.Own st s) : S.Own st' s := ⟨hs.mine, h.chain hs.chain⟩

/-- **The call of the scope that a row leads to** is of the scope. -/
theorem Sound.roots (h : S.Sound st) {root : String} (hc : S.Chain st root) : S.Roots st (Naming.root root) := by
  obtain ⟨r, hr, hmine, rfl⟩ := hc.row
  exact (h.closed r hr hmine).2

theorem Sound.saw (h : S.Sound st) {r : CallRow} (hr : r ∈ st.store.calls) (hread : r.read = .ok s) : S.Saw st s := by
  have hrow := CallRow.segment_of_read hread
  have hkey : r.segment.key = s.key := by rw [hrow]; rfl
  have hrevision : r.segment.revision = s.revision := by rw [hrow]
  refine ⟨⟨r, hr, hkey, le_of_eq hrevision.symm, fun _ => hread⟩, fun hmine leg hleg => ?_⟩
  exact h.legs r hr (by rw [hrow]; exact hmine) s hread leg hleg

theorem mine_of_key {r : CallRow} (hkey : r.segment.key = s.key) (hmine : S.mine s.tenantId = true) :
    S.mine r.segment.tenantId = true := by
  rw [show r.segment.tenantId = s.tenantId from congrArg Segment.Key.tenantId hkey]
  exact hmine

theorem Saw.own (h : S.Saw st s) (hs : S.Sound st) (hmine : S.mine s.tenantId = true) : S.Own st s := by
  obtain ⟨r, hr, hkey, -⟩ := h.row
  have hroot : r.segment.rootSid = s.rootSid := congrArg Segment.Key.rootSid hkey
  have hrmine := mine_of_key hkey hmine
  exact ⟨hmine, ⟨r, hr, hrmine, hroot⟩, hroot ▸ (hs.closed r hr hrmine).1⟩

theorem Saw.own_of_roots (h : S.Saw st s) (hroots : S.Roots st s.rootSid) : S.Own st s := by
  obtain ⟨r, hr, hkey, -⟩ := h.row
  have hroot : r.segment.rootSid = s.rootSid := congrArg Segment.Key.rootSid hkey
  have hmine := hroots r hr hroot
  refine ⟨?_, ⟨r, hr, hmine, hroot⟩, hroots⟩
  rw [show s.tenantId = r.segment.tenantId from congrArg Segment.Key.tenantId hkey.symm]
  exact hmine

/-- **The row with the id of a segment that was seen**: it is the segment's, and unless it was written it reads as it. -/
theorem Saw.of_sameId (h : S.Saw st s) (hsound : S.Sound st) {r : CallRow} (hr : r ∈ st.store.calls)
    (hid : sameId r.segment.id s.id = true) :
    r.segment.key = s.key ∧ (r.segment.revision = s.revision → r.read = .ok s) := by
  obtain ⟨a, ha, hkey, -, hread⟩ := h.row
  have haid : a.segment.id = s.id := congrArg Segment.Key.id hkey
  rw [hsound.identified.keyed.eq_of_sameId hr ha (haid ▸ hid)]
  exact ⟨hkey, hread⟩

/-- **The row that a conditional write is made on** reads as the segment that the deed was done to. -/
theorem Saw.of_isAt {d : Segment.Deed} (h : S.Saw st s) (hsound : S.Sound st) {r : CallRow} (hr : r ∈ st.store.calls)
    (hat : isAt (s.did d).id s.revision r = true) : r.segment.key = s.key ∧ r.read = .ok s := by
  have hid : (s.did d).id = s.id := by
    rw [← Segment.overwriting_did]
    rfl
  rw [isAt, Bool.and_eq_true, decide_eq_true_eq, hid] at hat
  obtain ⟨hkey, hread⟩ := h.of_sameId hsound hr hat.1
  exact ⟨hkey, hread hat.2⟩

/-- A segment whose row is open, as far as no others work meanwhile. -/
def Stands (S : Scope) (st : State) (s : Segment) : Prop :=
  S.crowded ∨ ∃ r ∈ st.store.calls, sameId r.segment.id s.id = true ∧ r.segment.isClosed = false

theorem Stands.of_calls (hcalls : S.crowded ∨ st'.store.calls = st.store.calls) (h : S.Stands st s) : S.Stands st' s := by
  rcases hcalls with hcrowded | heq
  · exact .inl hcrowded
  · rw [Stands, heq]
    exact h

/-- A row that is closed although its segment stands was closed by others. -/
theorem Stands.crowded (h : S.Stands st s) (hs : S.Sound st) {r : CallRow} (hr : r ∈ st.store.calls)
    (hid : sameId r.segment.id s.id = true) (hclosed : r.segment.isClosed = true) : S.crowded := by
  rcases h with hcrowded | ⟨a, ha, haid, hopen⟩
  · exact hcrowded
  · rw [hs.identified.keyed.eq_of_sameId hr ha (Store.sameId_trans hid (Store.sameId_comm _ _ ▸ haid)), hopen] at hclosed
    cases hclosed

/-- A call id that may be taken for one of the scope: every row that shares it, as its own id or as its root, is of the
scope, and so is the call that it leads to. -/
structure Free (S : Scope) (st : State) (sid : String) : Prop where
  sids : ∀ r ∈ st.store.calls, r.segment.callSid = sid → S.mine r.segment.tenantId = true
  alike : S.Roots st sid
  roots : S.Roots st (Naming.root sid)

theorem Evolves.free (h : S.Evolves st st') {sid : String} (hfree : S.Free st sid) : S.Free st' sid := by
  refine ⟨fun r' hr' heq => ?_, h.roots hfree.alike, h.roots hfree.roots⟩
  rcases h.origin r' hr' with ⟨r, hr, hf⟩ | hmine
  · rw [hf.tenant]
    exact hfree.sids r hr ((congrArg Segment.Key.callSid hf.1.key).symm.trans heq)
  · exact hmine

theorem mine_of_ownedBy {tenant id : String} (hmine : S.mine tenant = true) (h : ownedBy (some tenant) id = true) :
    S.mine id = true := by
  have h : sameId id tenant = true := by simpa [ownedBy] using h
  exact S.mine_of_same h hmine

/-- **The handing on of a segment of the scope** closes it and opens the next one of its call. -/
theorem Step.of_handOver {h : Store.Handover} {scratch : Scratch} {now : Time.Instant} {rows : CallRow × CallRow}
    {db : Store} (hs : S.Sound st) (hsaw : S.Saw st s) (hmine : S.mine s.tenantId = true)
    (hquiet : scratch.pendingLegs = []) (hok : st.store.handOver s h scratch now = .ok (rows, db)) :
    S.Step st { st with store := db } ∧ ∀ t, rows.2.read = .ok t →
      S.Saw { st with store := db } t ∧ S.Own { st with store := db } t ∧ S.Stands { st with store := db } t := by
  obtain ⟨r, t, hfind, hopen, -, -, -, hinsert⟩ := Store.handOver_eq_ok hok
  have hrow := List.find?_some hfind
  rw [Bool.and_eq_true] at hrow
  have hclose : S.Step st { st with
      store := st.store.updateCalls (fun r => sameId r.segment.id s.id)
        (CallRow.handOn h now (t.elapsed (.utc now))) } := by
    refine Step.of_updateCalls (fun a => (CallRow.change_key a _).1) fun a ha hid => ?_
    refine ⟨mine_of_key (hsaw.of_sameId hs ha hid).1 hmine, .handOn h now _ ?_⟩
    rw [hs.identified.keyed.eq_of_sameId ha (List.mem_of_find?_eq_some hfind)
      (Store.sameId_trans hid (Store.sameId_comm _ _ ▸ hrow.1))]
    exact hopen
  generalize st.store.updateCalls (fun r => sameId r.segment.id s.id) (CallRow.handOn h now (t.elapsed (.utc now))) =
    middle at hclose hinsert
  obtain ⟨hmiddle, hev⟩ := hclose hs
  obtain ⟨-, heq, hdb⟩ := Store.insertCall_eq_ok hinsert
  have hread : rows.2.read = .ok rows.2.segment := by
    rw [heq]
    rfl
  have hown : S.Own { st with store := middle } s := hev.own (hsaw.own hs hmine)
  have hadd : S.Step { st with store := middle } { st with store := db } := by
    refine @Step.of_insertCall S { st with store := middle } _ _ db hinsert hmine
      (fun _ => ⟨hown.chain.roots, hmiddle.roots hown.chain⟩) fun u hu => ?_
    rw [hread] at hu
    cases hu
    rw [heq]
    exact hquiet
  refine ⟨hclose.trans hadd, fun u hu => ?_⟩
  have hmem : rows.2 ∈ db.calls := by
    rw [hdb]
    exact List.mem_append_right _ (List.mem_singleton_self _)
  rw [hread] at hu
  cases hu
  have hseen := (hadd hmiddle).1.saw hmem hread
  refine ⟨hseen, hseen.own (hadd hmiddle).1 ?_, .inr ⟨rows.2, hmem, decide_eq_true rfl, ?_⟩⟩
  · rw [heq]
    exact hmine
  · rw [heq]
    rfl

namespace Keeps

variable {α : Type}

theorem sound {t : Work α} {P : α → State → Prop} (h : S.Sound st → S.Keeps t st P) : S.Keeps t st P :=
  ⟨fun hs => (h hs).upholds hs⟩

/-! ## Reading -/

theorem readRow {r : CallRow} : S.Keeps (Work.readRow r) st fun s st' => r.read = .ok s ∧ st' = st := by
  refine ofExcept fun s hs => ⟨?_, rfl⟩
  cases hr : r.read with
  | ok t => rw [hr] at hs; cases hs; rfl
  | error e => rw [hr] at hs; cases hs

theorem readRow? (row : Option CallRow) :
    S.Keeps (Work.readRow? row) st fun a _ => ∀ s, a = some s → ∃ r, row = some r ∧ r.read = .ok s := by
  cases row with
  | none => exact pure fun s hs => nomatch hs
  | some r =>
    refine readRow.bind fun s st' _ _ hread => pure fun t ht => ?_
    cases ht
    exact ⟨r, rfl, hread.1⟩

theorem readRows : ∀ (rows : List CallRow) {st : State},
    S.Keeps (rows.mapM Work.readRow) st fun ss _ => ∀ s ∈ ss, ∃ r ∈ rows, r.read = .ok s
  | [], _ => by
    rw [List.mapM_nil]
    exact pure fun _ h => nomatch h
  | r :: rest, _ => by
    rw [List.mapM_cons]
    refine readRow.bind fun s st' _ _ hread => (readRows rest).bind fun ss st'' _ _ hrest => pure fun t ht => ?_
    rcases List.mem_cons.mp ht with rfl | ht
    · exact ⟨r, List.mem_cons_self, hread.1⟩
    · obtain ⟨a, ha, hat⟩ := hrest t ht
      exact ⟨a, List.mem_cons_of_mem _ ha, hat⟩

/-- **A row that is found** was seen, and has the key that it was looked for by. -/
theorem found {t : Work (Option CallRow)} {A : Segment.Key → Prop}
    (ht : S.Keeps t st fun row st' => ∀ r, row = some r → A r.segment.key ∧ ∀ s, r.read = .ok s → S.Saw st' s) :
    S.Keeps (t >>= Work.readRow?) st fun a st' => ∀ s, a = some s → S.Saw st' s ∧ A s.key := by
  refine ht.bind fun row st' _ _ hrow => (readRow? row).mono fun a st'' _ hev hread s hs => ?_
  obtain ⟨r, rfl, hr⟩ := hread s hs
  exact ⟨hev.saw ((hrow r rfl).2 s hr), CallRow.key_of_read hr ▸ (hrow r rfl).1⟩

theorem lookup {f : Store → Option CallRow} {A : Segment.Key → Prop}
    (h : ∀ r, f st.store = some r → r ∈ st.store.calls ∧ A r.segment.key) :
    S.Keeps (Work.query f >>= Work.readRow?) st fun a st' => ∀ s, a = some s → S.Saw st' s ∧ A s.key :=
  sound fun hs => found (query fun _ hev r hr => ⟨(h r hr).2, fun _ hread => hev.saw (hs.saw (h r hr).1 hread)⟩)

theorem segment? (sid : String) (number : Int) (tenant : Option String) :
    S.Keeps (Work.segment? sid number tenant) st fun a st' => ∀ s, a = some s →
      S.Saw st' s ∧ s.rootSid = Naming.root sid ∧ ownedBy tenant s.tenantId = true := by
  refine sound fun hs => found (A := fun k => k.rootSid = Naming.root sid ∧ ownedBy tenant k.tenantId = true)
    (statement fun row db hok => ?_)
  split at hok
  · cases hok
    refine ⟨Step.refl st, fun st' _ hev r hr => ?_⟩
    have hmem : r ∈ st.store.calls := List.mem_of_find?_eq_some hr
    have hkey := List.find?_some hr
    simp only [Bool.and_eq_true, decide_eq_true_eq] at hkey
    exact ⟨⟨hkey.1.1, hkey.2⟩, fun s hread => hev.saw (hs.saw hmem hread)⟩
  · cases hok

theorem segmentOfSid? (sid : String) : S.Keeps (Work.segmentOfSid? sid) st fun a st' => ∀ s, a = some s →
    S.Saw st' s ∧ s.callSid = sid :=
  lookup (A := fun k => k.callSid = sid) fun r hr => by
    have hkey := List.find?_some hr
    exact ⟨List.mem_of_find?_eq_some hr, of_decide_eq_true hkey⟩

theorem latest? (sid : String) (tenant : Option String) : S.Keeps (Work.latest? sid tenant) st fun a st' =>
    ∀ s, a = some s → S.Saw st' s ∧ s.rootSid = Naming.root sid ∧ ownedBy tenant s.tenantId = true := by
  have hrows : S.Keeps (Work.query (Store.latestRow (Naming.root sid) tenant) >>= Work.readRow?) st fun a st' =>
      ∀ s, a = some s → S.Saw st' s ∧ s.rootSid = Naming.root sid ∧ ownedBy tenant s.tenantId = true := by
    refine lookup (A := fun k => k.rootSid = Naming.root sid ∧ ownedBy tenant k.tenantId = true) fun r hr => ?_
    obtain ⟨hmem, hkey⟩ := List.mem_filter.mp (Store.mem_of_newest hr)
    simp only [Bool.and_eq_true, decide_eq_true_eq] at hkey
    exact ⟨hmem, hkey.1.1, hkey.2⟩
  unfold Work.latest?
  rw [← bind_assoc]
  refine hrows.bind fun a st' _ _ ha => (interrupt _).bind fun _ st'' _ hev _ => pure fun s hs => ?_
  exact ⟨hev.saw (ha s hs).1, (ha s hs).2⟩

theorem segmentOfLeg? (leg : String) : S.Keeps (Work.segmentOfLeg? leg) st fun a st' => ∀ s, a = some s → S.Saw st' s :=
  (lookup (A := fun _ => True) fun _ hr =>
    ⟨(List.mem_filter.mp (Store.mem_of_newest hr)).1, trivial⟩).mono fun _ _ _ _ h s hs => (h s hs).1

theorem chain (sid : String) (tenant : Option String) : S.Keeps (Work.chain sid tenant) st fun ss st' =>
    ∀ s ∈ ss, S.Saw st' s ∧ s.rootSid = Naming.root sid := by
  refine sound fun hs => bind (P := fun rows st' => ∀ r ∈ rows, r.segment.rootSid = Naming.root sid ∧
    ∀ s, r.read = .ok s → S.Saw st' s) (query fun st' hev r hr => ?_) fun rows st' _ _ hrows =>
    (readRows rows).mono fun ss st'' _ hev hread s hs => ?_
  · obtain ⟨hmem, hkey⟩ := List.mem_filter.mp (List.mem_mergeSort.mp hr)
    rw [Bool.and_eq_true, decide_eq_true_eq] at hkey
    exact ⟨hkey.1, fun s hread => hev.saw (hs.saw hmem hread)⟩
  · obtain ⟨r, hr, hrs⟩ := hread s hs
    exact ⟨hev.saw ((hrows r hr).2 s hrs),
      (congrArg Segment.Key.rootSid (CallRow.key_of_read hrs)).symm.trans (hrows r hr).1⟩

/-! ## Orders -/

theorem note {r : Request} (h : S.Allows st r) :
    S.Keeps (Work.note r) st fun _ st' => st'.store = st.store ∧ (r.isOrder = true → r ∈ st'.orders) := by
  have horders : State.orders { st with requests := st.requests ++ [r] } = st.orders ++ [r].filter Request.isOrder :=
    List.filter_append _ _
  refine update (Step.of_calls rfl (le_refl _) rfl rfl ⟨_, horders, fun o ho => ?_⟩) ⟨rfl, fun hr => ?_⟩
  · rw [List.mem_singleton.mp (List.mem_filter.mp ho).1]
    exact h
  · rw [horders]
    exact List.mem_append_right _ (List.mem_filter.mpr ⟨List.mem_singleton_self r, hr⟩)

/-- **A leg that was placed** for a chain of the scope may be hung up. -/
theorem placeCall {leg : Provider.Leg} (h : S.LegFor st leg) :
    S.Keeps (Work.placeCall leg) st fun a st' => st'.store = st.store ∧ ∀ sid, a = some sid → S.Known st' sid := by
  refine look ?_
  split
  · exact (note (r := .place leg none) h).bind fun _ _ _ _ hnoted => pure ⟨hnoted.1, fun _ hsid => nomatch hsid⟩
  · refine bind (P := fun _ st' => st'.store = st.store) (update (Step.of_aside ⟨rfl, rfl, rfl, rfl, rfl⟩) rfl)
      fun _ st' _ hev hstore => ?_
    refine (note (r := .place leg (some _)) (hev.carries.legFor h)).bind fun _ st'' _ hev' hnoted => ?_
    refine pure ⟨hnoted.1.trans hstore, fun sid hsid => ?_⟩
    cases hsid
    exact .inr ⟨leg, hnoted.2 rfl, (hev.trans hev').carries.legFor h⟩

theorem terminateCall {sid : String} (h : S.Chain st sid ∨ S.Known st sid) :
    S.Keeps (Work.terminateCall sid) st fun _ _ => True :=
  look ((note (r := .terminate sid _) h).bind fun _ _ _ _ _ => pure trivial)

theorem redirectCall {sid document : String} (h : S.Chain st sid) :
    S.Keeps (Work.redirectCall sid document) st fun _ st' => st'.store = st.store :=
  look ((note (r := .redirect sid document _) h).bind fun _ _ _ _ hnoted => pure hnoted.1)

/-! ## Changing a segment -/

theorem contend (hsaw : S.Saw st s) (hmine : S.mine s.tenantId = true) :
    S.Keeps (Work.contend s.id) st fun _ _ => True := by
  refine sound fun hs => update ?_ trivial
  split
  · exact Step.refl st
  · rename_i n _
    have hwrite : S.Step st { st with
        store := st.store.updateCalls (fun r => sameId r.segment.id s.id) CallRow.written } := by
      refine Step.of_updateCalls (fun _ => rfl) fun r hr hid => ⟨?_, .columns [] rfl⟩
      exact mine_of_key (hsaw.of_sameId hs hr hid).1 hmine
    exact hwrite.trans (Step.of_aside ⟨rfl, rfl, rfl, rfl, rfl⟩)

theorem writeAt {d : Segment.Deed} (hsaw : S.Saw st s) (hmine : S.mine s.tenantId = true)
    (hlegs : ∀ leg ∈ d.registers, S.Known st leg) :
    S.Keeps (Work.statement (Store.writeAt (s.did d) s.revision)) st fun a _ =>
      ∀ row, a = some row → row.read = .ok ((s.did d).revised (s.revision + 1)) := by
  refine sound fun hs => statement fun a db hok => ?_
  have hrow {r : CallRow} (hr : r ∈ st.store.calls) (hat : isAt (s.did d).id s.revision r = true) :
      S.mine r.segment.tenantId = true ∧ r.read = .ok s :=
    (hsaw.of_isAt hs hr hat).imp_left fun hkey => mine_of_key hkey hmine
  unfold Store.writeAt at hok
  split at hok
  · cases hok
  · cases hok
    refine ⟨Step.of_updateCalls (fun _ => rfl) fun r hr hat => ?_, fun st' _ _ row hfound => ?_⟩
    · exact ⟨(hrow hr hat).1, .deed d (hrow hr hat).2 hlegs⟩
    · obtain ⟨r, hfind, rfl⟩ := Option.map_eq_some_iff.mp hfound
      have hread := (hrow (List.mem_of_find?_eq_some hfind) (List.find?_some hfind)).2
      exact CallRow.read_overwrite hread (Segment.overwriting_did s d)

/-- What is known behind a change: it was made on a segment of the scope that was seen. -/
def Took {α : Type} (S : Scope) (sid : String) (d : Segment.Deed) (f : Segment → Segment × α) (p : Segment × α)
    (st : State) : Prop :=
  ∃ s k, S.Saw st s ∧ S.Own st s ∧ s.rootSid = Naming.root sid ∧ p = ((s.did d).revised k, (f s).2)

theorem mutate {f : Segment → Segment × α} {sid : String} (number : Int) (tenant : Option String) (d : Segment.Deed)
    (hf : ∀ s, (f s).1 = s.did d) (hroots : S.Roots st (Naming.root sid)) (hlegs : ∀ leg ∈ d.registers, S.Known st leg) :
    S.Keeps (Work.mutate sid number tenant f) st fun a st' => ∀ p, a = some p → Took S sid d f p st' := by
  unfold Work.mutate
  generalize Work.mutateTries = tries
  -- By induction on the tries that are left: a try that comes too late leaves the call in the scope for the next one.
  induction tries generalizing st with
  | zero => exact fail _
  | succ tries ih =>
    refine (segment? sid number none).bind fun a st₁ _ hev₁ hsegment => ?_
    refine (interrupt .reading).bind fun _ st₂ _ hev₂ _ => ?_
    cases a with
    | none => exact pure fun p hp => nomatch hp
    | some s =>
      have hev := hev₁.trans hev₂
      have hsaw : S.Saw st₂ s := hev₂.saw (hsegment s rfl).1
      have hroot : s.rootSid = Naming.root sid := (hsegment s rfl).2.1
      have hown : S.Own st₂ s := hsaw.own_of_roots (hroot ▸ hev.roots hroots)
      dsimp only
      split
      · exact pure fun p hp => nomatch hp
      · rw [hf s]
        split
        · rename_i hsame
          refine pure fun p hp => ?_
          cases hp
          exact ⟨s, s.revision, hsaw, hown, hroot, by rw [hsame]; rfl⟩
        · refine (contend hsaw hown.mine).bind fun _ st₃ _ hev₃ _ => ?_
          have hevlegs := hev.trans hev₃
          refine (writeAt (hev₃.saw hsaw) hown.mine fun leg hleg => hevlegs.known (hlegs leg hleg)).bind
            fun row st₄ _ hev₄ hrow => ?_
          cases row with
          | none => exact ih ((hevlegs.trans hev₄).roots hroots) fun leg hleg => (hevlegs.trans hev₄).known (hlegs leg hleg)
          | some row =>
            refine readRow.bind fun t st₅ _ hev₅ hread => pure fun p hp => ?_
            cases hp
            have hread := (hrow row rfl).symm.trans hread.1
            cases hread
            have hlast := hev₃.trans (hev₄.trans hev₅)
            exact ⟨s, s.revision + 1, hlast.saw hsaw, hlast.own hown, hroot, rfl⟩

/-! ## Updating, handing on and opening -/

theorem updateCall {changes : List Change} (hsaw : S.Saw st s) (hmine : S.mine s.tenantId = true)
    (hchanges : changes.all Change.spares = true ∨ S.Stands st s ∧ ∃ now, changes = Change.unreached now) :
    S.Keeps (Work.updateCall s.id changes) st fun a st' => ∀ t, a = some t → S.Saw st' t ∧ t.key = s.key := by
  unfold Work.updateCall
  split
  · exact pure fun _ ht => nomatch ht
  · refine sound fun hs => found (A := fun k => k = s.key) (statement fun row db hok => ?_)
    have hstep : S.Step st { st with
        store := st.store.updateCalls (fun r => sameId r.segment.id s.id) (CallRow.change changes) } := by
      refine Step.of_updateCalls (fun r => (CallRow.change_key r changes).1) fun r hr hid => ?_
      refine ⟨mine_of_key (hsaw.of_sameId hs hr hid).1 hmine, ?_⟩
      rcases hchanges with hspares | ⟨hstands, now, rfl⟩
      · exact .columns changes hspares
      · exact .unreached now (hstands.crowded hs hr hid)
    unfold Store.changeCall at hok
    split at hok
    · cases hok
    · split at hok
      · cases hok
        exact ⟨Step.refl st, fun _ _ _ r hr => nomatch hr⟩
      · rename_i r hfind
        split at hok
        · cases hok
        · cases hok
          refine ⟨hstep, fun st' _ hev a ha => ?_⟩
          cases ha
          have hfound := List.find?_some hfind
          rw [Bool.and_eq_true] at hfound
          have hmem : r ∈ st.store.calls := List.mem_of_find?_eq_some hfind
          refine ⟨(CallRow.key_change changes r).1.trans (hsaw.of_sameId hs hmem hfound.1).1, fun t ht => hev.saw ?_⟩
          refine (hstep hs).1.saw (List.mem_map.mpr ⟨r, hmem, if_pos hfound.1⟩) ht

/-- **The handing on** of a segment of the scope: what is opened is of it too, and stands. -/
theorem handOver {h : Store.Handover} {scratch : Scratch} (hsaw : S.Saw st s) (hmine : S.mine s.tenantId = true)
    (hquiet : scratch.pendingLegs = []) :
    S.Keeps (Work.handOver s h scratch) st fun p st' => S.Saw st' p.2 ∧ S.Own st' p.2 ∧ S.Stands st' p.2 := by
  unfold Work.handOver
  refine (tame Work.tame_now).bind fun now st₁ hs₁ hev₁ _ => ?_
  refine bind (P := fun p st' => ∀ t, p.2.read = .ok t → S.Saw st' t ∧ S.Own st' t ∧ S.Stands st' t)
    (atomically fun p st₂ hok => ?_) fun p st₂ _ _ hp => ?_
  · split at hok
    · cases hok
    · split at hok
      case h_1 hdb =>
        cases hok
        exact Step.of_handOver hs₁ (hev₁.saw hsaw) hmine hquiet hdb
      all_goals cases hok
  · refine (interrupt _).bind fun _ st₃ _ hev₃ hcalm => readRow.bind fun closed st₄ _ _ hclosed => ?_
    refine readRow.bind fun t st₅ _ _ hread => pure ?_
    obtain ⟨hsaw, hown, hstands⟩ := hp t hread.1
    rw [hread.2, hclosed.2]
    exact ⟨hev₃.saw hsaw, hev₃.own hown, hstands.of_calls (hcalm.imp_right fun heq => by rw [heq])⟩

/-- **The opening of a call** whose id may be taken for one of the scope. -/
theorem createCall {c : Work.NewCall} (hmine : S.mine c.tenant = true) (hfree : S.Free st c.sid) :
    S.Keeps (Work.createCall c) st fun a st' => ∀ s, a = some s → S.Own st' s := by
  unfold Work.createCall
  refine (tame (Work.tame_buyer? _ _)).bind fun buyer st₁ _ hev₁ _ => ?_
  refine (tame Work.tame_now).bind fun now st₂ hs₂ hev₂ _ => ?_
  have hfree := (hev₁.trans hev₂).free hfree
  refine bind (P := fun row st' => ∀ r, row = some r → ∀ s, r.read = .ok s → S.Own st' s)
    (statement fun row db hok => ?_) fun row st₃ _ hev₃ hrow => ?_
  · unfold Store.insertFirst at hok
    split at hok
    · cases hok
      exact ⟨Step.refl st₂, fun _ _ _ r hr => nomatch hr⟩
    · cases hinsert : st₂.store.insertCall ⟨c.segment buyer now, some (.arr [], .obj [])⟩ with
      | error e => rw [hinsert] at hok; cases hok
      | ok p =>
        rw [hinsert] at hok
        cases hok
        obtain ⟨-, hadded, hdb⟩ := Store.insertCall_eq_ok hinsert
        have hread : p.1.read = .ok { p.1.segment with tags := [], scratch := .fresh } := by
          rw [hadded]
          rfl
        have hstep := Step.of_insertCall hinsert hmine (fun _ => ⟨hfree.alike, hfree.roots⟩) fun s hs => by
          rw [hread] at hs
          cases hs
          rfl
        refine ⟨hstep, fun st' _ hev' r hr s hs => hev'.own ?_⟩
        cases hr
        have hmem : p.1 ∈ p.2.calls := by
          rw [hdb]
          exact List.mem_append_right _ (List.mem_singleton_self _)
        refine ((hstep hs₂).1.saw hmem hs).own (hstep hs₂).1 ?_
        rw [hread] at hs
        cases hs
        show S.mine p.1.segment.tenantId = true
        rw [hadded]
        exact hmine
  · cases row with
    | none =>
      refine (segmentOfSid? c.sid).mono fun a st₄ hs₄ hev₄ ha s hs => ?_
      obtain ⟨hsaw, hsame⟩ := ha s hs
      obtain ⟨r, hr, hkey, -⟩ := hsaw.row
      refine hsaw.own hs₄ ?_
      rw [show s.tenantId = r.segment.tenantId from congrArg Segment.Key.tenantId hkey.symm]
      exact ((hev₃.trans hev₄).free hfree).sids r hr ((congrArg Segment.Key.callSid hkey).trans hsame)
    | some r =>
      refine readRow.bind fun s st₄ _ hev₄ hread => pure fun t ht => ?_
      cases ht
      exact hev₄.own (hrow r rfl s hread.1)

end Keeps

end Scope

end Switchboard
