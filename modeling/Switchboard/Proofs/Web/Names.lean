import Switchboard.Proofs.Web.LateReports
/-!
# Names of stored segments

Every row is added with a conference that is named for its segment, and no write moves a segment to another conference
(`serves_rooming`).  The id of a segment's call is the one that its call and its number give it, because rows form chains.
So no two of the segments that are stored share a conference or a call id, whatever the ids of callers are made of
(`segments_share_no_name`).
-/
namespace Switchboard

open Segment (Deed)
open Store (isAt CallRow.overwrite CallRow.change Chained)
open Manner (Makes)
open Relation (ReflTransGen)

/-! ## Conferences of rows -/

/-- The conference of a row is named for its segment. -/
def CallRow.Roomed (r : CallRow) : Prop :=
  r.segment.conferenceName = some (Naming.conference r.segment.rootSid r.segment.number)

theorem CallRow.Roomed.of_same {r r' : CallRow} (h : r.Roomed) (hkey : r'.segment.key = r.segment.key)
    (hname : r'.segment.conferenceName = r.segment.conferenceName) : r'.Roomed := by
  rw [Roomed, hname, h, show r'.segment.rootSid = r.segment.rootSid from congrArg Segment.Key.rootSid hkey,
    show r'.segment.number = r.segment.number from congrArg Segment.Key.number hkey]

namespace Store

variable {db db' : Store}

/-- The conferences of all rows are named for their segments. -/
def Roomed (db : Store) : Prop := ∀ r ∈ db.calls, r.Roomed

theorem Roomed.of_calls (h : db.Roomed) (hcalls : db'.calls = db.calls) : db'.Roomed := by
  rw [Roomed, hcalls]
  exact h

theorem Roomed.updateCalls {p : CallRow → Bool} {g : CallRow → CallRow} (h : db.Roomed)
    (hg : ∀ r ∈ db.calls, p r = true → (g r).segment.key = r.segment.key ∧
      (g r).segment.conferenceName = r.segment.conferenceName) : (db.updateCalls p g).Roomed := by
  intro r' hr'
  obtain ⟨r, hr, rfl⟩ := List.mem_map.1 hr'
  split
  · rename_i hp
    exact (h r hr).of_same (hg r hr hp).1 (hg r hr hp).2
  · exact h r hr

theorem Roomed.change {p : CallRow → Bool} {changes : List Change} (h : db.Roomed)
    (hspares : changes.all Change.sparesRoom = true) : (db.updateCalls p (CallRow.change changes)).Roomed :=
  h.updateCalls fun r _ _ => ⟨(CallRow.key_change changes r).1, CallRow.conferenceName_change hspares r⟩

theorem Roomed.insertCall {r r' : CallRow} (h : db.Roomed) (hok : db.insertCall r = .ok (r', db')) (hr : r.Roomed) :
    db'.Roomed := by
  obtain ⟨-, hrow, hdb⟩ := insertCall_eq_ok hok
  intro a ha
  rw [hdb] at ha
  rcases List.mem_append.1 ha with ha | ha
  · exact h a ha
  · rw [List.mem_singleton.1 ha, hrow]
    exact hr

theorem Roomed.insertFirst {s : Segment} {row : Option CallRow} (h : db.Roomed)
    (hs : s.conferenceName = some (Naming.conference s.rootSid s.number)) (hok : db.insertFirst s = .ok (row, db')) :
    db'.Roomed := by
  rcases insertFirst_eq_ok hok with rfl | ⟨r, -, hinsert⟩
  · exact h
  · exact h.insertCall hinsert hs

/-- **The next segment of a call** is opened with a conference of its own. -/
theorem Roomed.handOver {active : Segment} {handover : Handover} {scratch : Scratch} {now : Time.Instant}
    {rows : CallRow × CallRow} (h : db.Roomed) (hok : db.handOver active handover scratch now = .ok (rows, db')) :
    db'.Roomed := by
  obtain ⟨r, s, -, -, -, -, -, hinsert⟩ := handOver_eq_ok hok
  exact (h.change rfl).insertCall hinsert rfl

end Store

/-! ## Work that leaves conferences alone -/

/-- The manner of work that leaves segments in their conferences and opens segments with conferences of their own. -/
def rooming : Manner where
  rely := Scope.crowd.Others
  guar st st' := (st.store.Identified → st'.store.Identified) ∧ (st.store.Roomed → st'.store.Roomed)
  inv st := st.store.Identified
  lasts hst h := h.elim (fun h => Scope.crowd_others h hst) fun h => h.1 hst
  aside h := ⟨fun hst => hst.of_calls h.calls (le_of_eq h.counted.symm), fun hrooms => hrooms.of_calls h.calls⟩
  contends _ _ _ := ⟨fun hst => hst.updateCalls _ fun _ => rfl, fun hrooms => hrooms.updateCalls fun _ _ _ => ⟨rfl, rfl⟩⟩

theorem rooming_updates : rooming.Updates := fun _ _ changes hspares =>
  ⟨fun hst => hst.updateCalls _ fun r => (CallRow.change_key r changes).1, fun hrooms => hrooms.change hspares⟩

theorem rooming_orders (r : Provider.Request) : rooming.Orders r := fun _ _ => ⟨id, id⟩

namespace Work

/-- **A deed is written on the row that it was done to**, which stays in its conference. -/
theorem upholds_writeAt_rooming {st : State} {s : Segment} (d : Deed) (hst : st.store.Identified)
    (hsaw : Scope.crowd.Saw st s) :
    (statement (Store.writeAt (s.did d) s.revision)).Upholds (State.terms rooming.rely rooming.guar)
      (fun _ st' => st'.store.Identified) st := by
  refine upholds_statement (fun row db hok => ?_) hst fun _ => hst
  unfold Store.writeAt at hok
  split at hok
  · cases hok
  · cases hok
    have hwritten := hst.updateCalls (isAt (s.did d).id s.revision) (g := CallRow.overwrite (s.did d)) fun _ => rfl
    refine ⟨_, rfl, ⟨fun _ => hwritten, fun hrooms => hrooms.updateCalls fun r hr hat => ⟨rfl, ?_⟩⟩,
      fun st' hr => Scope.crowd_others hr hwritten⟩
    have hread := (hsaw.of_isAt (Scope.everybody_sound hst) hr hat).2
    rw [CallRow.segment_of_read hread]
    exact Segment.conferenceName_did s d

theorem rooming_mutates : rooming.Mutates := by
  intro α f d hf sid number tenant
  unfold mutate
  generalize mutateTries = tries
  -- By induction on the tries that are left: what was read is still known when it is written.
  induction tries with
  | zero => exact .fail _
  | succ tries ih =>
    refine ⟨fun st hst => Task.Upholds.bind (fun found st₁ h => ?_) (fun _ _ h => ⟨fun _ _ => trivial, h.2.2⟩)
      ((Makes.tame (tame_segment? sid number none)).beside id (Scope.Keeps.segment? sid number none) hst hst)⟩
    obtain ⟨hfound, -, hst₁⟩ := h
    refine Task.upholds_interrupt_bind.2 fun st₂ hothers => ?_
    have hst₂ : st₂.store.Identified := Scope.crowd_others hothers hst₁
    cases found with
    | none => exact (Makes.pure (M := rooming) trivial).upholds st₂ hst₂
    | some s =>
      have hsaw : Scope.crowd.Saw st₂ s := (hothers.1 (Scope.everybody_sound hst₁)).2.saw ((hfound _ rfl).2 s rfl).1
      dsimp only
      split
      · exact (Makes.pure (M := rooming) trivial).upholds st₂ hst₂
      · rw [hf s]
        split
        · exact (Makes.pure (M := rooming) trivial).upholds st₂ hst₂
        · refine Task.Upholds.bind (fun _ st₃ h => ?_) (fun _ _ h => ⟨fun _ _ => trivial, h.2.2⟩)
            ((Makes.contend s.id).beside id (Scope.Keeps.contend hsaw rfl) hst₂ hst₂)
          obtain ⟨-, hev, hst₃⟩ := h
          refine Task.Upholds.bind (fun row st₄ hst₄ => ?_) (fun _ _ h => ⟨fun _ _ => trivial, h⟩)
            (upholds_writeAt_rooming d hst₃ (hev.saw hsaw))
          cases row with
          | none => exact ih.upholds st₄ hst₄
          | some row => exact ((Makes.tame (tame_readRow row)).bind fun _ _ => .pure trivial).upholds st₄ hst₄

theorem serves_rooming : rooming.Serves Naming.Unmarked where
  mutates := rooming_mutates
  updates := rooming_updates
  orders := rooming_orders
  tables _ _ hcalls hcounted := ⟨fun hst => hst.of_calls hcalls hcounted, fun hrooms => hrooms.of_calls hcalls⟩
  opens _ _ _ _ _ _ _ hok := ⟨fun hst => hst.insertFirst hok, fun hrooms => hrooms.insertFirst rfl hok⟩
  transfers sid toUser fromUser reason tenant := by
    have hover (active : Segment) (h : Store.Handover) (scratch : Scratch) :
        rooming.Makes (handOver active h scratch) fun _ => True :=
      .handOver (A := fun _ => True) trivial fun _ _ _ _ _ hok =>
        ⟨fun hst => hst.handOver hok, fun hrooms => hrooms.handOver hok⟩
    exact .transfer (A := fun _ => True) ((Makes.tame (tame_activeSegment? sid)).mono fun _ _ _ _ => trivial)
      (fun active h scratch _ _ => hover active h scratch)
      fun s _ => .connect rooming_mutates rooming_orders rooming_updates s

end Work

/-! ## Names that differ -/

/-- **From no calls on** every segment has the conference that is named for it. -/
theorem State.roomed_of_proceeds {st st' : State} (hnone : st.store.calls = [])
    (h : ReflTransGen State.Proceeds st st') :
    (st'.store.Identified ∧ Chained st'.store) ∧ st'.store.Roomed :=
  State.invariant_of_proceeds Work.serves_rooming id id (fun _ _ hguar hrooms => hguar.2 hrooms) hnone
    (fun r hr => by rw [hnone] at hr; cases hr) h

/-- **No two rows are of one call and have one number**, where rows form chains. -/
theorem Store.Chained.pairwise {db : Store} (hchained : Chained db) (hdb : db.Identified) :
    db.calls.Pairwise fun a b => ¬ (a.segment.rootSid = b.segment.rootSid ∧ a.segment.number = b.segment.number) := by
  refine List.Pairwise.imp_of_mem (fun {a b} ha hb hapart ⟨hroot, hnumber⟩ => ?_) hdb.keyed
  have hsame := (hchained b.segment.rootSid).eq_of_number (mem_chainOf.2 ⟨hb, rfl⟩) (mem_chainOf.2 ⟨ha, hroot⟩) hnumber
  rw [hsame, sameId_self] at hapart
  cases hapart

/-- **Names of segments never collide.**  The id of a call that no transfer named is its own root, and it is the root of every
id that a transfer makes of it.  The ids that transfers make and the names of conferences tell the root and the number that
they were made of, whatever the root looks like; so do the ids of segments, where no transfer named the caller's call.  So,
however the service has gone on from no calls, every stored segment bears the names of its call and its number, is found by
its number and the id of any segment of its call, and shares neither its call id nor its conference with another one. -/
theorem segments_share_no_name :
    (∀ (sid : String) (number : Int), Naming.Unmarked sid →
      Naming.root (Naming.transfer sid number) = sid ∧ Naming.root sid = sid) ∧
    Function.Injective2 Naming.transfer ∧ Function.Injective2 Naming.conference ∧
    (∀ (root root' : String) (n n' : Int), Naming.Unmarked root → Naming.Unmarked root' →
      Naming.segment root n = Naming.segment root' n' → root = root' ∧ n = n') ∧
    ∀ st st' : State, st.store.calls = [] → ReflTransGen State.Proceeds st st' →
      (∀ r ∈ st'.store.calls, r.segment.callSid = Naming.segment r.segment.rootSid r.segment.number ∧
        r.segment.conferenceName = some (Naming.conference r.segment.rootSid r.segment.number) ∧
        ∀ a ∈ st'.store.calls, a.segment.rootSid = r.segment.rootSid →
          st'.store.segmentRow (Naming.root a.segment.callSid) r.segment.number none = some r) ∧
      st'.store.calls.Pairwise fun a b =>
        a.segment.callSid ≠ b.segment.callSid ∧ a.segment.conferenceName ≠ b.segment.conferenceName := by
  refine ⟨fun sid number h => ⟨Naming.root_transfer h number, Naming.root_of_unmarked h⟩, Naming.transfer_injective,
    Naming.conference_injective, fun root root' n n' => Naming.segment_inj, fun st st' hnone h => ?_⟩
  obtain ⟨⟨hidentified, hchained⟩, hroomed⟩ := State.roomed_of_proceeds hnone h
  have hnamed (r : CallRow) (hr : r ∈ st'.store.calls) :=
    (hchained r.segment.rootSid).named r (Store.mem_chainOf.2 ⟨hr, rfl⟩)
  refine ⟨fun r hr => ⟨(hnamed r hr).1, hroomed r hr, fun a ha hroot => ?_⟩, ?_⟩
  · rw [(hnamed a ha).1, Naming.root_segment (hnamed a ha).2, hroot]
    exact hchained.segmentRow (Store.mem_chainOf.2 ⟨hr, rfl⟩)
  · refine (hchained.pairwise hidentified).imp_of_mem fun {a b} ha hb hapart => ⟨fun hsid => hapart ?_, fun hroom => hapart ?_⟩
    · rw [(hnamed a ha).1, (hnamed b hb).1] at hsid
      exact Naming.segment_inj (hnamed a ha).2 (hnamed b hb).2 hsid
    · rw [hroomed a ha, hroomed b hb] at hroom
      exact Naming.conference_injective (Option.some.inj hroom)

/-- A call whose id looks like the end of a conference's name, beside one that is transferred. -/
theorem conference_of_a_lookalike_is_its_own :
    let st := { State.holding [] with
      store := { Store.empty with
        lines := [⟨"L", "T", "+15550199", none, true, true, none⟩]
        users := [⟨"U", "u@example.org", none, none⟩]
        members := [⟨"M", "T", "U", true⟩] }
      settings := { (State.holding []).settings with authToken := "secret", apiKey := "key" } }
    let incoming (sid : String) : Web.Request := ⟨.post, "/voice/incoming/T/L", "",
      [("host", "localhost"), ("content-type", "application/x-www-form-urlencoded")], "CallSid=" ++ sid⟩
    let transfer : Web.Request := ⟨.post, "/api/tenants/T/calls/CA1/transfer", "",
      [("host", "localhost"), ("content-type", "application/json"), ("x-api-key", "key")],
      "\x7b\x22toUserId\x22: \x22M\x22\x7d"⟩
    let opened := ((Web.serve (incoming "CA1_seg_1")).run ((Web.serve (incoming "CA1")).run st).2).2
    let st' := ((Web.serve transfer).run opened).2
    st.store.calls = [] ∧ ReflTransGen State.Proceeds st st' ∧
      (st'.store.calls.map fun r => (r.segment.callSid, r.segment.conferenceName)) =
        [("CA1", some "call_CA1_seg_0"), ("CA1_seg_1", some "call_CA1_seg_1_seg_0"),
          ("CA1_transfer_1", some "call_CA1_seg_1")] ∧
      (st'.store.calls.Pairwise fun a b =>
        a.segment.callSid ≠ b.segment.callSid ∧ a.segment.conferenceName ≠ b.segment.conferenceName) ∧
      Naming.root (Naming.transfer "CA1_seg_1" 1) = "CA1_seg_1" ∧
      Naming.segment "CA1_seg_1" 1 ≠ Naming.segment "CA1" 1 := by
  intro st incoming transfer opened st'
  have hnone : st.store.calls = [] := rfl
  have hproceeds : ReflTransGen State.Proceeds st st' :=
    .tail (.tail (.single (.alone st (.request (incoming "CA1") (by decide +kernel))))
      (.alone _ (.request (incoming "CA1_seg_1") (by decide +kernel)))) (.alone _ (.request transfer (by decide +kernel)))
  obtain ⟨hroot, -, -, hsegment, hstored⟩ := segments_share_no_name
  refine ⟨hnone, hproceeds, by decide +kernel, (hstored st st' hnone hproceeds).2,
    (hroot "CA1_seg_1" 1 (by decide +kernel)).1, fun hsame => ?_⟩
  exact absurd (hsegment "CA1_seg_1" "CA1" 1 1 (by decide +kernel) (by decide +kernel) hsame).1 (by decide)

end Switchboard
