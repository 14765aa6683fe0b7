import Switchboard.Proofs.Web.Descent
/-!
# Callers

Each request of a call finds the first segment of the call, or opens it, and runs the flow of the line for it.  Alone, such a
run leaves the segment stored, and with it the token of the attempt that was opened last: that is the ground on which what a
flow answers can be told (`Work.alone`).
-/
namespace Switchboard

open Switchboard.Flow (Steps)
open Web (Event lineOf)

/-! ## What the store has of a call -/

namespace Caller

variable {who : Caller} {c : CallContext} {st st' : State} {s t : Segment} {α : Type}

/-- The store has the first segment of a caller's call. -/
structure Has (who : Caller) (st : State) (s : Segment) : Prop where
  stored : st.store.Holds s
  sid : s.rootSid = who.sid
  number : s.number = 0
  tenant : s.tenantId = who.tenant

/-- The store has the token of the attempt that was opened last, with the number of the attempt. -/
def Token (who : Caller) (st : State) (r : Resume) (seq : Int) : Prop :=
  ∃ s, who.Has st s ∧ s.scratch.resume = r ∧ s.scratch.attemptSeq = seq

theorem Has.eq (hs : who.Has st s) (ht : who.Has st t) : t = s :=
  Store.eq_of_stored hs.stored.stored ht.stored.stored (ht.sid.trans hs.sid.symm) (ht.number.trans hs.number.symm)

theorem Has.records (hs : who.Has st s) : st.store.Records (Naming.root who.sid) 0 s := by
  obtain ⟨r, hrow, hread⟩ := hs.stored.stored
  have hmem : r ∈ st.store.calls := List.mem_of_find?_eq_some hrow
  have hfound := List.find?_some hrow
  simp only [Bool.and_eq_true, decide_eq_true_eq] at hfound
  refine ⟨r, Store.mem_chainOf.2 ⟨hmem, ?_⟩, hfound.1.2.trans hs.number, hread⟩
  rw [Naming.root_of_unmarked who.unmarked, ← hs.sid]
  exact hfound.1.1

/-- **A change of the segment** that a run makes is stored, or it fails; the segment is there either way. -/
theorem About.run_mutate (hc : who.About c) (hs : who.Has st s) {f : Segment → Segment × α} (hf : Segment.IsChange f) :
    ∃ r st', (Work.mutate c.callSid c.segmentNumber none f).run st = (r, st') ∧ st'.settings = st.settings ∧
      ((∃ k, r = .ok (some ((f s).1.revised k, (f s).2)) ∧ who.Has st' ((f s).1.revised k)) ∨
        ∃ k e, r = .error e ∧ who.Has st' (s.revised k)) := by
  rw [hc.segment, ← hs.number]
  have htenant : (f s).1.tenantId = s.tenantId := by
    rw [← hf.overwriting s]
    rfl
  rcases Work.mutate_cases hf hs.stored (hc.sid.trans hs.sid.symm) with ⟨db, k, n, hrun, hdb, -⟩ | ⟨db, k, n, e, hrun, hdb, -⟩
  · refine ⟨_, _, hrun, rfl, .inl ⟨k, rfl, hdb, ?_, ?_, ?_⟩⟩
    · exact (hf.rootSid_eq s).trans hs.sid
    · exact (hf.number_eq s).trans hs.number
    · exact htenant.trans hs.tenant
  · exact ⟨_, _, hrun, rfl, .inr ⟨k, e, rfl, hdb, hs.sid, hs.number, hs.tenant⟩⟩

/-- What is known throughout a run for a caller: the addresses of the service, and that the call is stored. -/
def Lasts (who : Caller) (st : State) : Prop := Callbacks.ofBase st.settings.baseUrl = who.urls ∧ ∃ s, who.Has st s

theorem About.lasts_mutate (hc : who.About c) (h : who.Lasts st) {f : Segment → Segment × α} (hf : Segment.IsChange f) :
    who.Lasts ((Work.mutate c.callSid c.segmentNumber none f).run st).2 := by
  obtain ⟨hurls, s, hs⟩ := h
  obtain ⟨r, st', hrun, hsettings, hcases⟩ := hc.run_mutate hs hf
  rw [hrun]
  refine ⟨by rw [hsettings]; exact hurls, ?_⟩
  rcases hcases with ⟨k, -, hst'⟩ | ⟨k, e, -, hst'⟩
  · exact ⟨_, hst'⟩
  · exact ⟨_, hst'⟩

/-- **An attempt that is prepared** leaves its token with the segment. -/
theorem About.run_prepareAttempt (hc : who.About c) (h : who.Lasts st) (resume : Resume) (targets : List DialTarget)
    (callerId : Option String) (timeout : Int) (record : Bool) :
    ∃ r st', (Work.prepareAttempt c.callSid c.segmentNumber resume targets callerId timeout record).run st = (r, st') ∧
      who.Lasts st' ∧ ∀ s, r = .ok (some s) → who.Has st' s ∧ s.scratch.resume = resume := by
  obtain ⟨hurls, s, hs⟩ := h
  obtain ⟨r, st', hrun, hsettings, hcases⟩ :=
    hc.run_mutate hs (Segment.isChange_startAttempt resume targets callerId timeout record)
  have hurls' : Callbacks.ofBase st'.settings.baseUrl = who.urls := by rw [hsettings]; exact hurls
  rcases hcases with ⟨k, rfl, hst'⟩ | ⟨k, e, rfl, hst'⟩
  · have hresume : ((s.startAttempt resume targets callerId timeout record).1.revised k).scratch.resume = resume := rfl
    refine ⟨_, st', Task.run_bind_ok hrun, ⟨hurls', _, hst'⟩, fun t ht => ?_⟩
    cases ht
    exact ⟨hst', hresume⟩
  · refine ⟨_, st', Task.run_bind_error hrun, ⟨hurls', _, hst'⟩, fun s hs => ?_⟩
    cases hs

end Caller

namespace Work

variable {who : Caller} {c : CallContext}

/-- **Looking up where a destination leads** changes nothing. -/
theorem run_resolve?_kept (tenant destination : String) (st : State) : ((resolve? tenant destination).run st).2 = st := by
  have hresolve : ((resolve tenant destination).run st).2 = st := by
    unfold resolve
    dsimp only
    split
    · split <;> rfl
    · exact Task.run_bind_kept (run_query_kept _ st) fun found => by cases found <;> rfl
    · exact Task.run_bind_kept (run_query_kept _ st) fun found => by cases found <;> rfl
  have hsome : ((do return some (← resolve tenant destination) : Work (Option DialTarget)).run st).2 = st :=
    Task.run_bind_kept hresolve fun _ => rfl
  unfold resolve?
  rw [Task.run_recover]
  split
  · rename_i a st' h
    rw [h] at hsome
    exact hsome
  · rename_i e st' h
    rw [h] at hsome
    cases hsome
    split <;> rfl

/-- **Looking up a buyer** changes nothing. -/
theorem run_buyer?_kept (tenant : String) (phone : Option String) (st : State) : ((buyer? tenant phone).run st).2 = st := by
  unfold buyer?
  split
  · rfl
  · rename_i number _
    have hquery := run_query_kept (Store.buyerOfPhone tenant number (Phone.lastTen (some number))) st
    rw [Task.run_recover]
    split
    · rename_i h
      rw [h] at hquery
      exact hquery
    · rename_i h
      rw [h] at hquery
      exact hquery

/-- The ground on which a run for a caller is alone. -/
def alone (hc : who.About c) : Ground c where
  rely := Eq
  holds := who.Lasts
  urls u := u = who.urls
  opened r seq st := who.Token st r seq
  based h := h.1
  resolves tenant destination h := Task.upholds_alone (by rw [run_resolve?_kept]; exact h)
  tags name value h := Task.upholds_alone (hc.lasts_mutate h ⟨fun _ _ => rfl, fun _ => rfl⟩)
  entries name value h := Task.upholds_alone (hc.lasts_mutate h ⟨fun _ _ => rfl, fun _ => rfl⟩)
  attempts resume targets callerId timeout record h := by
    obtain ⟨r, st', hrun, hlasts, hopened⟩ := hc.run_prepareAttempt h resume targets callerId timeout record
    refine Task.upholds_alone ?_
    rw [hrun]
    exact ⟨hlasts, fun s hs => ⟨s, (hopened s hs).1, (hopened s hs).2, rfl⟩⟩

end Work

/-! ## Lines -/

theorem Store.activeLine_eq_some {db : Store} {name : String} {row : LineRow} {f : FlowRow}
    (h : db.activeLine name = some (row, some f)) :
    row ∈ db.lines ∧ sameId row.id name = true ∧ f ∈ db.flows ∧ row.flowId.any (sameId f.id) = true := by
  obtain ⟨l, hfind, hpair⟩ := Option.map_eq_some_iff.1 h
  obtain ⟨rfl, hflow⟩ := Prod.mk.inj hpair
  obtain ⟨id, hid, hfound⟩ := Option.bind_eq_some_iff.1 hflow
  have hnamed := List.find?_some hfind
  have hsame := List.find?_some hfound
  rw [Bool.and_eq_true] at hnamed
  exact ⟨List.mem_of_find?_eq_some hfind, hnamed.1, List.mem_of_find?_eq_some hfound, by rw [hid]; exact hsame⟩

/-- **A line that runs a flow** has read it as it is stored. -/
theorem Web.run_lineOf_eq_ok {tenant name : String} {st st' : State} {l : LineFlow}
    (h : (lineOf tenant name).run st = (.ok (some l), st')) (hflow : (Flow.given l.flowId).isNone = false) :
    l.tenantId = tenant ∧ ∃ row f v, st.store.activeLine name = some (row, some f) ∧ l.lineId = row.id ∧
      f.steps = .ok v ∧ Steps.read v = .ok l.steps := by
  obtain ⟨found, st₁, hfound, hdone⟩ := Task.run_bind_eq_ok h
  obtain ⟨rfl, htenant⟩ := Option.filter_eq_some_iff.1 (Except.ok.inj (congrArg Prod.fst hdone))
  obtain ⟨active, st₂, hquery, hread⟩ := Task.run_bind_eq_ok hfound
  obtain ⟨hactive, rfl⟩ := Work.run_query_eq_ok hquery
  rcases active with - | ⟨row, - | f⟩
  · cases hread
  · cases hread
    cases hflow
  · obtain ⟨v, st₃, hv, hsteps⟩ := Task.run_bind_eq_ok hread
    obtain ⟨steps, st₄, hsteps, hl⟩ := Task.run_bind_eq_ok hsteps
    cases hl
    exact ⟨of_decide_eq_true htenant, row, f, v, hactive.symm, rfl,
      Work.eq_ok_of_mapError (Task.run_ofExcept_eq_ok hv).1, Work.eq_ok_of_mapError (Task.run_ofExcept_eq_ok hsteps).1⟩

/-! ## States in which a call is served -/

namespace Caller

variable {who : Caller} {st st' : State} {s : Segment}

section Chained

variable (hst : st.store.Identified ∧ Store.Chained st.store)
include hst

/-- **A row with the id of the call** is one of the call. -/
theorem rootSid_of_callSid {r : CallRow} (hr : r ∈ st.store.calls)
    (hsid : r.segment.callSid = who.sid) : r.segment.rootSid = who.sid := by
  obtain ⟨hnamed, hroot⟩ := (hst.2 r.segment.rootSid).named r (Store.mem_chainOf.2 ⟨hr, rfl⟩)
  have hback := Naming.root_segment hroot r.segment.number
  rw [← hnamed, hsid, Naming.root_of_unmarked who.unmarked] at hback
  exact hback.symm

/-- **A call that is opened** has its first segment. -/
theorem has_of_insertCall {s₀ : Segment} (hsid : s₀.rootSid = who.sid)
    (hnumber : s₀.number = 0) (htenant : s₀.tenantId = who.tenant)
    (hduration : s₀.duration = none) {docs : Option (Json × Json)} {r : CallRow} {db : Store}
    (hok : st.store.insertCall ⟨s₀, docs⟩ = .ok (r, db)) (hread : r.read = .ok s) :
    who.Has { st with store := db } s := by
  have hidentified := hst.1.insertCall hok
  obtain ⟨hnew, hr, rfl⟩ := Store.insertCall_eq_ok hok
  have hrow := CallRow.segment_of_read hread
  have hroot : s.rootSid = who.sid :=
    (congrArg Segment.rootSid hrow).symm.trans ((congrArg (·.segment.rootSid) hr).trans hsid)
  have hzero : s.number = 0 :=
    (congrArg Segment.number hrow).symm.trans ((congrArg (·.segment.number) hr).trans hnumber)
  have hlasted : s.duration = none :=
    (congrArg Segment.duration hrow).symm.trans ((congrArg (·.segment.duration) hr).trans hduration)
  refine ⟨⟨hidentified.keyed, ?_, ?_, ?_, r, ?_, hread⟩, hroot, hzero,
    (congrArg Segment.tenantId hrow).symm.trans ((congrArg (·.segment.tenantId) hr).trans htenant)⟩
  · rw [hzero]
    decide
  · rw [hlasted]
    rfl
  · rw [hroot, Naming.root_of_unmarked who.unmarked]
  · -- no row of the call has the number yet
    have hnone : st.store.segmentRow who.sid 0 none = none := by
      refine List.find?_eq_none.2 fun a ha hfound => ?_
      have hother := List.all_eq_true.1 hnew a ha
      simp only [Bool.and_eq_true, decide_eq_true_eq] at hfound
      simp [hsid, hnumber, hfound.1.1, hfound.1.2] at hother
    have hthis : r.segment.rootSid = who.sid ∧ r.segment.number = 0 :=
      ⟨(congrArg Segment.rootSid hrow).trans hroot, (congrArg Segment.number hrow).trans hzero⟩
    rw [hroot, hzero]
    unfold Store.segmentRow at hnone ⊢
    show List.find? _ (st.store.calls ++ [r]) = _
    rw [List.find?_append, hnone, Option.none_or, List.find?_cons_of_pos]
    simp [hthis, ownedBy]

end Chained

/-- A state in which requests of a caller's call are served.  The call is not handed on: its first segment is the only one, if
the call is stored at all.  And whatever line is stored under the id of the caller's, in whatever spelling, runs the flow of
the caller. -/
structure Setting (who : Caller) (st : State) : Prop where
  urls : Callbacks.ofBase st.settings.baseUrl = who.urls
  rows : ∀ r ∈ st.store.calls, r.segment.rootSid = who.sid →
    r.segment.number = 0 ∧ r.segment.tenantId = who.tenant ∧ r.segment.duration.all Store.fits = true
  line : ∀ l ∈ st.store.lines, Store.sameId l.id who.line = true → l.id = who.line ∧
    ∀ f ∈ st.store.flows, l.flowId.any (Store.sameId f.id) = true →
      ∀ v steps, f.steps = .ok v → Steps.read v = .ok steps → steps = who.flow

/-- **What is kept is the setting**: the store, and the settings of the service. -/
theorem Setting.of_store (h : who.Setting st) (hstore : st'.store = st.store) (hsettings : st'.settings = st.settings) :
    who.Setting st' := by
  obtain ⟨hurls, hrows, hline⟩ := h
  exact ⟨hsettings ▸ hurls, hstore ▸ hrows, hstore ▸ hline⟩

/-- **A service with one line and one flow** is a setting for a caller of that line. -/
theorem Setting.of_one_line {doc : Json} (hurls : Callbacks.ofBase st.settings.baseUrl = who.urls)
    (hlines : st.store.lines.map LineRow.id = [who.line])
    (hflows : (st.store.flows.map fun f => f.steps.toOption) = [some doc]) (hread : Steps.read doc = .ok who.flow)
    (hrows : ∀ r ∈ st.store.calls, r.segment.number = 0 ∧ r.segment.tenantId = who.tenant ∧ r.segment.duration = none) :
    who.Setting st where
  urls := hurls
  rows r hr _ := by
    obtain ⟨hnumber, htenant, hduration⟩ := hrows r hr
    exact ⟨hnumber, htenant, by rw [hduration]; rfl⟩
  line l hl _ := by
    refine ⟨List.mem_singleton.1 (hlines ▸ List.mem_map_of_mem hl), fun f hf _ v steps hv hsteps => ?_⟩
    have hdoc : f.steps.toOption = some doc := List.mem_singleton.1 (hflows ▸ List.mem_map_of_mem hf)
    rw [hv] at hdoc
    cases hdoc
    rw [hread] at hsteps
    exact (Except.ok.inj hsteps).symm

namespace Setting

variable (h : who.Setting st)
include h

/-- **The line of a call** runs the flow of the caller, where it runs one. -/
theorem line_of_run {name : String} (hname : Store.sameId name who.line = true) {l : LineFlow}
    (hrun : (lineOf who.tenant name).run st = (.ok (some l), st')) (hflow : (Flow.given l.flowId).isNone = false) :
    l.tenantId = who.tenant ∧ l.lineId = who.line ∧ l.steps = who.flow ∧ Flow.AllFit who.flow := by
  obtain ⟨htenant, row, f, v, hactive, hid, hv, hread⟩ := Web.run_lineOf_eq_ok hrun hflow
  obtain ⟨hrow, hnamed, hf, hruns⟩ := Store.activeLine_eq_some hactive
  obtain ⟨hline, hsteps⟩ := h.line row hrow (Store.sameId_trans hnamed hname)
  have hflow := hsteps f hf hruns v l.steps hv hread
  exact ⟨htenant, hid.trans hline, hflow, hflow ▸ Flow.fits_of_read hread⟩

variable (hst : st.store.Identified ∧ Store.Chained st.store)
include hst

theorem has_of_row {r : CallRow} (hr : r ∈ st.store.calls) (hroot : r.segment.rootSid = who.sid) (hread : r.read = .ok s) :
    who.Has st s := by
  obtain ⟨hnumber, htenant, hrange⟩ := h.rows r hr hroot
  have hrow := CallRow.segment_of_read hread
  have hsid : s.rootSid = who.sid := by rw [← hroot, hrow]
  have hzero : s.number = 0 := by rw [← hnumber, hrow]
  have hrecords : st.store.Records s.rootSid s.number s := by
    rw [hsid, hzero]
    exact ⟨r, Store.mem_chainOf.2 ⟨hr, hroot⟩, hnumber, hread⟩
  refine ⟨hrecords.holds hst.1 hst.2 ?_ ?_, hsid, hzero, ?_⟩
  · rw [hzero]
    decide
  · rw [hrow] at hrange
    exact hrange
  · rw [← htenant, hrow]

/-- **The newest segment of the call** is its first one. -/
theorem has_of_latest {sid : String} {tenant : Option String} (hsid : Naming.root sid = who.sid)
    (hrun : (Work.latest? sid tenant).run st = (.ok (some s), st')) : st' = st ∧ who.Has st s := by
  obtain ⟨row, st₁, hquery, hbehind⟩ := Task.run_bind_eq_ok hrun
  obtain ⟨found, st₂, hread, hdone⟩ := Task.run_bind_eq_ok hbehind
  obtain ⟨rfl, rfl⟩ := Work.run_query_eq_ok hquery
  obtain ⟨rfl, hfound⟩ := Work.run_readRow?_eq_ok hread
  cases hdone
  rcases hfound with ⟨-, hnone⟩ | ⟨r, s', hrow, hsome, hread⟩
  · cases hnone
  · cases hsome
    obtain ⟨hr, hroot⟩ := Store.mem_chainOf.1 (Store.mem_chainOf_of_latest hrow)
    exact ⟨rfl, h.has_of_row hst hr (hroot.trans hsid) hread⟩

/-- **A call that comes in** has its first segment then, be it known or new. -/
theorem has_of_createCall {n : Work.NewCall} (hsid : n.sid = who.sid)
    (htenant : n.tenant = who.tenant) {found : Option Segment} (hrun : (Work.createCall n).run st = (.ok found, st')) :
    st'.settings = st.settings ∧ ∃ s, found = some s ∧ who.Has st' s := by
  obtain ⟨buyer, st₁, hbuyer, hnow⟩ := Task.run_bind_eq_ok hrun
  have hkept := Work.run_buyer?_kept n.tenant (if n.direction = "inbound" then n.fromNumber else n.toNumber) st
  rw [hbuyer] at hkept
  obtain rfl : st = st₁ := hkept.symm
  obtain ⟨now, st₂, hclock, hinserted⟩ := Task.run_bind_eq_ok hnow
  cases hclock
  obtain ⟨row, st₃, hinsert, hrest⟩ := Task.run_bind_eq_ok hinserted
  obtain ⟨db, hdb, rfl⟩ := Work.run_statement_eq_ok hinsert
  unfold Store.insertFirst at hdb
  split at hdb
  · rename_i hknown
    cases hdb
    obtain ⟨row, st₃, hquery, hread⟩ := Task.run_bind_eq_ok hrest
    obtain ⟨rfl, rfl⟩ := Work.run_query_eq_ok hquery
    obtain ⟨rfl, hfound⟩ := Work.run_readRow?_eq_ok hread
    rcases hfound with ⟨hnone, -⟩ | ⟨r, s, hrow, rfl, hs⟩
    · rw [show st.store.rowOfSid (n.segment buyer st.now).callSid = none from hnone] at hknown
      cases hknown
    · have hr : r ∈ st.store.calls := List.mem_of_find?_eq_some hrow
      have hcallSid : r.segment.callSid = n.sid := of_decide_eq_true (List.find?_some hrow :)
      exact ⟨rfl, s, rfl, h.has_of_row hst hr (rootSid_of_callSid hst hr (hcallSid.trans hsid)) hs⟩
  · cases hok : st.store.insertCall ⟨n.segment buyer st.now, some (.arr [], .obj [])⟩ with
    | error e =>
      rw [hok] at hdb
      cases hdb
    | ok p =>
      rw [hok] at hdb
      cases hdb
      obtain ⟨s, st₃, hread, hdone⟩ := Task.run_bind_eq_ok hrest
      obtain ⟨hs, rfl⟩ := Work.run_readRow_eq_ok hread
      cases hdone
      exact ⟨rfl, s, rfl, has_of_insertCall hst hsid rfl htenant rfl hok hs⟩

end Setting

end Caller

end Switchboard
