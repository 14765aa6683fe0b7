import Switchboard.Proofs.Service.Placing
import Switchboard.Proofs.Store.DialedOnce
import Switchboard.Proofs.Web.Lasting
/-!
# Who dials the agents

On the first segment of a call the agents of every attempt are dialed by the first join of the caller.  A segment that a
transfer opened is told by its number (`State.Marked`): the transfer dialed its agent, and no join dials anybody on it, not
even for an attempt that the flow starts there later (`attempts_dialed_by_their_first_join`).
-/
namespace Switchboard

open Segment (Act Deed)
open Store (Chained)
open Manner (Makes)
open Relation (ReflTransGen)

/-! ## Segments that a transfer opened -/

/-- The id of a row's call tells whether a transfer dialed the agent of its segment: a call that no transfer made bears the
caller's own id. -/
def CallRow.Marked (r : CallRow) : Prop :=
  ∃ s, r.read = .ok s ∧ (s.scratch.agentDialedFromTransfer = false ∧ s.callSid = s.rootSid ∨
    s.scratch.agentDialedFromTransfer = true ∧ s.callSid = Naming.transfer s.rootSid s.number)

namespace State

/-- A step that adds marked rows only. -/
def Marks (st st' : State) : Prop :=
  ∀ r' ∈ st'.store.calls, (∃ r ∈ st.store.calls, r'.segment.key = r.segment.key) ∨ r'.Marked

theorem Marks.of_calls {st st' : State} (h : st'.store.calls = st.store.calls) : st.Marks st' := fun r' hr' =>
  .inl ⟨r', h ▸ hr', rfl⟩

theorem Marks.updateCalls (st : State) (p : CallRow → Bool) {g : CallRow → CallRow}
    (hkey : ∀ r, (g r).segment.key = r.segment.key) : st.Marks { st with store := st.store.updateCalls p g } := by
  intro r' hr'
  obtain ⟨r, hr, rfl⟩ := List.mem_map.1 hr'
  refine .inl ⟨r, hr, ?_⟩
  split
  · exact hkey r
  · rfl

end State

/-- The manner of work that adds marked rows only. -/
def marking : Manner where
  rely _ _ := True
  guar := State.Marks
  inv _ := True
  lasts _ _ := trivial
  aside h := .of_calls h.calls
  contends st _ _ := State.Marks.updateCalls st _ fun _ => rfl

namespace Work

theorem marking_writes (f : Segment → Segment) : marking.Writes f := fun st _ => State.Marks.updateCalls st _ fun _ => rfl

theorem marking_mutates : marking.Mutates := Manner.mutates_of_writes marking_writes

theorem marking_updates : marking.Updates := fun st _ changes _ =>
  State.Marks.updateCalls st _ fun r => (CallRow.key_change changes r).1

theorem marking_orders (r : Provider.Request) : marking.Orders r := fun _ _ => .of_calls rfl

theorem marking_opens (c : NewCall) : marking.Opens c := by
  intro st buyer now row db hok r' hr'
  rcases Store.insertFirst_eq_ok hok with rfl | ⟨r, -, hinsert⟩
  · exact .inl ⟨r', hr', rfl⟩
  · obtain ⟨-, hrow, hstore⟩ := Store.insertCall_eq_ok hinsert
    rw [hstore] at hr'
    rcases List.mem_append.1 hr' with hr' | hr'
    · exact .inl ⟨r', hr', rfl⟩
    · rw [List.mem_singleton.1 hr', hrow]
      exact .inr ⟨_, rfl, .inl ⟨rfl, rfl⟩⟩

/-- **A call is handed on to a marked row**, if the agent of the segment that is opened is dialed by the transfer. -/
theorem marking_handOver (active : Segment) (h : Store.Handover) {scratch : Scratch}
    (hflag : scratch.agentDialedFromTransfer = true) : marking.Makes (handOver active h scratch) fun _ => True := by
  refine .handOver (A := fun _ => True) trivial fun st rows db now _ hok a ha => ?_
  obtain ⟨r, s, -, -, -, -, -, hinsert⟩ := Store.handOver_eq_ok hok
  obtain ⟨-, hrow, hstore⟩ := Store.insertCall_eq_ok hinsert
  rw [hstore] at ha
  rcases List.mem_append.1 ha with ha | ha
  · exact State.Marks.updateCalls st _ (fun b => (CallRow.key_change _ b).1) a ha
  · rw [List.mem_singleton.1 ha, hrow]
    exact .inr ⟨_, rfl, .inr ⟨hflag, rfl⟩⟩

theorem marking_transfer (sid toUser : String) (fromUser reason tenant : Option String) :
    marking.Makes (transfer sid toUser fromUser reason tenant) fun _ => True :=
  .transfer (A := fun _ => True) ((Makes.tame (tame_activeSegment? sid)).mono fun _ _ _ _ => trivial)
    (fun active h _ _ hflag => marking_handOver active h hflag)
    fun s _ => .connect marking_mutates marking_orders marking_updates s

theorem serves_marking : marking.Serves Naming.Unmarked where
  mutates := marking_mutates
  updates := marking_updates
  orders := marking_orders
  tables _ _ hcalls _ := .of_calls hcalls
  opens c _ := marking_opens c
  transfers := marking_transfer

end Work

namespace State

/-- **Rows that are marked stay marked**, and those that are added are. -/
theorem marked_of_step {st st' : State} (hlinks : st.Links st') (hmarks : st.Marks st') (hst : st.store.Identified)
    (hall : ∀ r ∈ st.store.calls, r.Marked) : ∀ r ∈ st'.store.calls, r.Marked := by
  intro r' hr'
  rcases hmarks r' hr' with ⟨r, hr, hkey⟩ | hnew
  · obtain ⟨s, hread, hmarked⟩ := hall r hr
    have hlife := Store.lives_of_step hlinks.1 hst r hr r' hr' hkey
    have hflag (b : Bool) : CallRow.Lasting fun s => s.scratch.agentDialedFromTransfer = b :=
      CallRow.lasting_of_did (fun s d h => (Segment.agentDialedFromTransfer_did s d).trans h) fun s t hscratch _ h => by
        rwa [hscratch]
    obtain ⟨t, hread', ht⟩ := (hflag _).writes hlife hread rfl
    have hkeys : t.key = s.key := (CallRow.key_of_read hread').symm.trans (hkey.trans (CallRow.key_of_read hread))
    have hsid : t.callSid = s.callSid := congrArg Segment.Key.callSid hkeys
    have hroot : t.rootSid = s.rootSid := congrArg Segment.Key.rootSid hkeys
    have hnumber : t.number = s.number := congrArg Segment.Key.number hkeys
    refine ⟨t, hread', ?_⟩
    rw [ht, hsid, hroot, hnumber]
    exact hmarked
  · exact hnew

/-- **A transfer has dialed the agent exactly of the segments behind the first**, however the service has gone on from no
calls. -/
theorem agentDialedFromTransfer_iff {st₀ st : State} (hnone : st₀.store.calls = []) (h : ReflTransGen Proceeds st₀ st)
    {r : CallRow} (hr : r ∈ st.store.calls) :
    ∃ s, r.read = .ok s ∧ (s.scratch.agentDialedFromTransfer = true ↔ s.number ≠ 0) := by
  have hmarked : (st.store.Identified ∧ Chained st.store) ∧ ∀ r ∈ st.store.calls, r.Marked :=
    invariant_of_proceeds Work.serves_marking (fun _ => trivial) (fun _ => trivial)
      (fun hst hlinks hmarks hall => marked_of_step hlinks hmarks hst hall) hnone
      (fun r hr => by rw [hnone] at hr; cases hr) h
  obtain ⟨s, hread, hs⟩ := hmarked.2 r hr
  have hkey := CallRow.key_of_read hread
  have hnamed := ((hmarked.1.2 r.segment.rootSid).named r (Store.mem_chainOf.2 ⟨hr, rfl⟩)).1
  rw [show r.segment.callSid = s.callSid from congrArg Segment.Key.callSid hkey,
    show r.segment.rootSid = s.rootSid from congrArg Segment.Key.rootSid hkey,
    show r.segment.number = s.number from congrArg Segment.Key.number hkey] at hnamed
  refine ⟨s, hread, ?_⟩
  rcases hs with ⟨hflag, hsid⟩ | ⟨hflag, hsid⟩
  · have hzero : s.number = 0 := by
      by_contra hne
      rw [Naming.segment, if_neg hne, hsid] at hnamed
      exact Naming.transfer_ne _ _ hnamed.symm
    exact iff_of_false (by rw [hflag]; exact Bool.false_ne_true) (not_not_intro hzero)
  · refine iff_of_true hflag fun hzero => ?_
    rw [Naming.segment, if_pos hzero, hsid] at hnamed
    exact Naming.transfer_ne _ _ hnamed

/-- No join that carries the number of an attempt has its agents dialed any more. -/
def Dialed (st : State) (sid : String) (number n : Int) : Prop := st.Shows sid number (Segment.WasDialed n)

end State

/-! ## Joins beside others -/

namespace Work

variable {st : State} {sid : String} {number n : Int}

/-- **A join notes that the agents are dialed** before it asks for any leg. -/
theorem upholds_join (conferenceSid : Option String) (hst : st.Showing sid number fun s => n ≤ s.scratch.attemptSeq) :
    (mutate sid number none (Segment.callerJoined (some n) conferenceSid)).Upholds (State.amidst State.Unasked)
      (fun r st' => ∀ a, r = .ok a → st'.Showing sid number (Segment.WasDialed n)) st :=
  Task.Upholds.mono (fun _ _ h a ha => (h a ha).1)
    (upholds_mutate (.act (.callerJoins (some n) conferenceSid)) (fun _ => rfl)
      (CallRow.lasting_of_attemptSeq_le Int.le_trans) (Segment.lasting_wasDialed n)
      (fun _ h => Segment.wasDialed_of_join h conferenceSid) hst)

theorem upholds_callerJoined_of_wasDialed (conferenceSid : Option String)
    (hst : st.Showing sid number (Segment.WasDialed n)) :
    (callerJoined sid number (some n) conferenceSid).Upholds (State.amidst State.Unasked) (fun _ _ => True) st := by
  have hlasting := Segment.lasting_wasDialed n
  refine Task.Upholds.bind (fun a st' h => ?_) (fun _ _ _ => trivial)
    (upholds_mutate (.act (.callerJoins (some n) conferenceSid)) (fun _ => rfl) hlasting hlasting
      (fun s h => Segment.wasDialed_did _ h) hst)
  obtain ⟨-, s, t, hs, rfl⟩ := h a rfl
  have hidle := Segment.callerJoined_of_wasDialed hs conferenceSid
  show Task.Upholds _ _ (if (Segment.callerJoined (some n) conferenceSid s).2 = true then _ else _) _
  rw [if_neg (by rw [hidle]; exact Bool.false_ne_true)]
  exact Task.upholds_pure.2 trivial

end Work

/-- **Every attempt on a first segment is dialed once, by its first join.**  While an attempt is the current one, a join of
the caller has its agents dialed exactly if it is the first one that carries the attempt's number, or none, and no transfer
has dialed the agent of the segment; and that is so exactly of the segments behind the first, for good: on these no join
dials anybody, whatever attempt was started there.  A join that has the agents dialed asks for one leg for each stored target,
in order, as a transfer does for the segment that it opens; every other join asks for none.  Others may come between: once a
join has been noted, before it asks for any leg, and for good, no join with the attempt's number asks for anything. -/
theorem attempts_dialed_by_their_first_join (seq : Option Int) (conferenceSid : Option String) :
    let join : Deed := .act (.callerJoins seq conferenceSid)
    (∀ (s : Segment) (a : Act) (ds : List Deed), a.isStart = true →
      ((s.after a).lived ds).scratch.attemptSeq = s.scratch.attemptSeq + 1 →
        (join.dials ((s.after a).lived ds) = true ↔ s.scratch.agentDialedFromTransfer = false ∧
          join.joins (s.scratch.attemptSeq + 1) = true ∧ ∀ b ∈ ds, b.joins (s.scratch.attemptSeq + 1) = false)) ∧
    (∀ st₀ st : State, st₀.store.calls = [] → ReflTransGen State.Proceeds st₀ st → ∀ r ∈ st.store.calls,
      ∃ s, r.read = .ok s ∧ (s.scratch.agentDialedFromTransfer = true ↔ s.number ≠ 0)) ∧
    (∀ (st : State) (s : Segment) (sid : String), st.store.Holds s → Naming.root sid = s.rootSid → st.isUp = true →
      st.conflicts < Work.mutateTries → ((Work.callerJoined sid s.number seq conferenceSid).run st).2.dials =
        st.dials ++ if join.dials s then s.scratch.targets.map (st.legFor s) else []) ∧
    (∀ (st : State) (s : Segment), st.Calm s.rootSid s.number →
      ((Work.connect s).run st).2.dials = st.dials ++ s.scratch.targets.map (st.legFor s)) ∧
    ∀ (sid : String) (number n : Int) (st₀ st : State), seq = some n → st₀.store.calls = [] →
      ReflTransGen State.Links st₀ st → st.Started sid number n →
        (Work.mutate sid number none (Segment.callerJoined seq conferenceSid)).Upholds (State.amidst State.Unasked)
          (fun res st₁ => ∀ a, res = .ok a → ∀ st', ReflTransGen State.Links st₁ st' → st'.Dialed sid number n ∧
            ∀ conferenceSid, (Work.callerJoined sid number seq conferenceSid).Upholds (State.amidst State.Unasked)
              (fun _ _ => True) st') st := by
  refine ⟨fun s a ds ha hcurrent => Segment.dials_lived_iff ha ds _ hcurrent,
    fun st₀ st hnone h r hr => State.agentDialedFromTransfer_iff hnone h hr,
    fun st s sid h hsid hup hc => Work.dials_callerJoined h hsid hup hc seq conferenceSid,
    fun st s h => Work.dials_connect h, fun sid number n st₀ st hseq hnone h hstarted => ?_⟩
  subst hseq
  have hst : st.Showing sid number fun s => n ≤ s.scratch.attemptSeq :=
    ⟨State.chained_of_links h (State.chained_of_no_calls hnone), hstarted⟩
  refine Task.Upholds.mono (fun res st₁ hjoined a ha st' h' => ?_) (Work.upholds_join conferenceSid hst)
  have hdialed := (hjoined a ha).links h' (Segment.lasting_wasDialed n)
  exact ⟨hdialed.2, fun conferenceSid => Work.upholds_callerJoined_of_wasDialed conferenceSid hdialed⟩

/-- The first attempt of a call is dialed by its first join.  When the call was transferred its flow is asked for once more,
and the attempt that this starts is dialed by nobody. -/
theorem attempt_behind_a_transfer_is_not_dialed :
    let target : DialTarget := ⟨.phone, "+15557654321", "+15557654321", none⟩
    let join (n : Int) : Deed := .act (.callerJoins (some n) none)
    let s := (Segment.opened "T" "CA1" "CA1" 0 "inbound" .ringing).after (.start .none [target] none 30 false)
    let leg := (State.holding [s]).legFor s target
    let dial : Json :=
      .arr [.obj [("id", .str "d"), ("type", .str "dial"), ("config", .obj [("destination", .str "+15557654321")])]]
    let st₀ := { State.holding [] with
      store := { Store.empty with
        flows := [⟨"F", "T", "Main", none, true, false, .ok dial, .utc 0, .utc 0⟩]
        lines := [⟨"L", "T", "+15550199", none, true, true, some "F"⟩]
        users := [⟨"U", "u@example.org", none, none⟩]
        members := [⟨"M", "T", "U", true⟩] }
      settings := { (State.holding []).settings with authToken := "secret", apiKey := "key" } }
    let form : List (String × String) := [("host", "localhost"), ("content-type", "application/x-www-form-urlencoded")]
    let incoming : Web.Request := ⟨.post, "/voice/incoming/T/L", "", form, "CallSid=CA1"⟩
    let transfer : Web.Request := ⟨.post, "/api/tenants/T/calls/CA1/transfer", "",
      [("host", "localhost"), ("content-type", "application/json"), ("x-api-key", "key")],
      "\x7b\x22toUserId\x22: \x22M\x22\x7d"⟩
    let replay : Web.Request := ⟨.post, "/voice/flow/T/L", "step=0", form, "CallSid=CA1"⟩
    let st := ((Web.serve replay).run ((Web.serve transfer).run ((Web.serve incoming).run st₀).2).2).2
    ((join 1).dials s = true ∧ (join 1).dials (s.lived [join 1]) = false ∧
      ((Work.callerJoined "CA1" 0 (some 1) none).run (.holding [s])).2.dials = [leg] ∧
      ((Work.connect s).run (.holding [s])).2.dials = [leg]) ∧
    (st₀.store.calls = [] ∧ ReflTransGen State.Proceeds st₀ st ∧ ∃ t, st.store.Holds t ∧ t.number = 1 ∧
      t.scratch.attemptSeq = 2 ∧ t.scratch.targets = [target] ∧ t.scratch.agentDialedFromTransfer = true ∧
      ((Work.callerJoined "CA1" 1 (some 2) none).run st).2.dials = st.dials ∧
      ((Work.mutate "CA1" 1 none (Segment.callerJoined (some 2) none)).run st).2.Dialed "CA1" 1 2) := by
  intro target join s leg dial st₀ form incoming transfer replay st
  obtain ⟨hfirst, -, hasked, hconnected, -⟩ := attempts_dialed_by_their_first_join (some 1) none
  obtain ⟨-, hopened, hbehind, -, hothers⟩ := attempts_dialed_by_their_first_join (some 2) none
  refine ⟨?_, ?_⟩
  · have hheld : (State.holding [s]).store.Holds s := Store.holds_holding (by decide) (by decide) (by decide +kernel)
    let start : Act := .start .none [target] none 30 false
    have hdials : (join 1).dials s = true :=
      (hfirst (Segment.opened "T" "CA1" "CA1" 0 "inbound" .ringing) start [] rfl rfl).2
        ⟨rfl, rfl, fun _ h => nomatch h⟩
    have hagain : ¬ (join 1).dials (s.lived [join 1]) = true := fun h =>
      Bool.false_ne_true (((hfirst (Segment.opened "T" "CA1" "CA1" 0 "inbound" .ringing) start [join 1] rfl rfl).1 h).2.2
        (join 1) List.mem_cons_self).symm
    have hjoined := hasked (.holding [s]) s "CA1" hheld (by decide +kernel) rfl (by decide)
    rw [if_pos hdials] at hjoined
    exact ⟨hdials, Bool.eq_false_iff.2 hagain, hjoined, hconnected (.holding [s]) s ⟨⟨s, hheld, rfl, rfl⟩, rfl, rfl⟩⟩
  · have hnone : st₀.store.calls = [] := rfl
    have hproceeds : ReflTransGen State.Proceeds st₀ st :=
      .tail (.tail (.single (.alone st₀ (.request incoming (by decide +kernel))))
        (.alone _ (.request transfer (by decide +kernel)))) (.alone _ (.request replay (by decide +kernel)))
    have hruns : (st.isUp = true ∧ st.conflicts = 0) ∧ (Store.chainOf "CA1" st.store).any (fun row =>
        decide (row.segment.number = 1) && row.read.toOption.any fun s => decide (s.duration = none ∧
          s.scratch.attemptSeq = 2 ∧ s.scratch.targets = [target])) = true ∧
        ((Work.mutate "CA1" 1 none (Segment.callerJoined (some 2) none)).run st).1.toOption.isSome = true := by
      decide +kernel
    have hlinks := State.links_of_proceeds hproceeds (State.chained_of_no_calls hnone)
    have hst := State.chained_of_links hlinks (State.chained_of_no_calls hnone)
    clear_value st
    obtain ⟨⟨hup, hconflicts⟩, hfound, hok⟩ := hruns
    obtain ⟨row, hrow, hany⟩ := List.any_eq_true.1 hfound
    obtain ⟨hnumber, hread⟩ := Bool.and_eq_true_iff.1 hany
    obtain ⟨hmem, hroot⟩ := Store.mem_chainOf.1 hrow
    obtain ⟨t, ht, hflag⟩ := hopened st₀ st hnone hproceeds row hmem
    rw [ht] at hread
    obtain ⟨hduration, hseq, htargets⟩ := of_decide_eq_true hread
    have hkey := CallRow.key_of_read ht
    have htroot : t.rootSid = "CA1" := (congrArg Segment.Key.rootSid hkey).symm.trans hroot
    have htnumber : t.number = 1 := (congrArg Segment.Key.number hkey).symm.trans (of_decide_eq_true hnumber)
    have hrecords : st.store.Records t.rootSid t.number t := ⟨row, htroot ▸ hrow, htnumber ▸ of_decide_eq_true hnumber, ht⟩
    have hheld : st.store.Holds t :=
      hrecords.holds hst.1 hst.2 (by rw [htnumber]; decide) (by rw [hduration]; rfl)
    have hopened : t.scratch.agentDialedFromTransfer = true := hflag.2 (by rw [htnumber]; decide)
    have hidle : ¬ Deed.dials t (join 2) = true := fun h =>
      Bool.false_ne_true (((Segment.dials_iff_joins t (join 2)).1 h).2.2.symm.trans hopened)
    have hjoined := hbehind st t "CA1" hheld (by rw [htroot]; decide +kernel) hup (by rw [hconflicts]; decide)
    rw [if_neg hidle, List.append_nil, htnumber] at hjoined
    have hstarted : st.Started "CA1" 1 2 := ⟨t, ⟨row, hrow, of_decide_eq_true hnumber, ht⟩, Int.le_of_eq hseq.symm⟩
    have hnoted := (hothers "CA1" 1 2 st₀ st rfl hnone hlinks hstarted).ends fun _ => .refl
    have hdialed : ((Work.mutate "CA1" 1 none (Segment.callerJoined (some 2) none)).run st).2.Dialed "CA1" 1 2 := by
      cases hres : ((Work.mutate "CA1" 1 none (Segment.callerJoined (some 2) none)).run st).1 with
      | error e => rw [hres] at hok; cases hok
      | ok a => exact (hnoted a hres _ .refl).1
    exact ⟨hnone, hproceeds, t, hheld, htnumber, hseq, htargets, hopened, hjoined, hdialed⟩

end Switchboard
