import Switchboard.Proofs.Store.Chains
import Switchboard.Proofs.Web.Manners
import Switchboard.Proofs.Web.Records
import Switchboard.Proofs.Web.Tenants
/-!
# The shape of chains

Whatever requests are served, side by side and in any order, the rows of each call form a chain.  Every request writes calls
in a way that keeps chains (`serves_chaining`); for a transfer this is so because it has seen the row that it closes, and
because closing it and adding the next one is one transaction.  That closed rows stay closed is what serving within the scope
of everybody says of the lives of rows.
-/
namespace Switchboard

open Store (sameId isAt CallRow.overwrite CallRow.change Grows Lives Chained)

/-- The scope of everybody, where others work at the pauses. -/
abbrev Scope.crowd : Scope := everybody True

theorem Scope.crowd_others {st st' : State} (h : crowd.Others st st') (hst : st.store.Identified) : st'.store.Identified :=
  (h.1 (everybody_sound hst)).1.identified

/-- **Work of a manner beside others** keeps in mind what it has seen, and what was seen before. -/
theorem Manner.Makes.beside {M : Manner} {α : Type} {t : Work α} {P : α → Prop} {Q : α → State → Prop} {st : State}
    (h : M.Makes t P) (hrely : ∀ {w w'}, M.rely w w' → Scope.crowd.Others w w') (hkeeps : Scope.crowd.Keeps t st Q)
    (hst : st.store.Identified) (hinv : M.inv st) :
    t.Upholds (State.terms M.rely M.guar)
      (fun r st' => (∀ a, r = .ok a → P a ∧ Q a st') ∧ Scope.crowd.Evolves st st' ∧ M.inv st') st :=
  Task.Upholds.mono (fun _ _ h => ⟨fun a ha => ⟨h.2.1 a ha, h.1.1 a ha⟩, h.1.2.2, h.2.2⟩)
    (((hkeeps.evolved (Scope.everybody_sound hst)).and (h.upholds st hinv)).of_terms (fun _ _ h => ⟨hrely h, h⟩)
      fun _ _ h => h.2)

/-- The manner of work that keeps chains. -/
def chaining : Manner where
  rely := Scope.crowd.Others
  guar st st' := (st.store.Identified → st'.store.Identified) ∧ Grows st.store st'.store
  inv st := st.store.Identified
  lasts hst h := h.elim (fun h => Scope.crowd_others h hst) fun h => h.1 hst
  aside h := ⟨fun hst => (Scope.Step.of_aside (S := .crowd) h (Scope.everybody_sound hst)).1.identified, .of_calls h.calls⟩
  contends _ _ _ := ⟨fun hst => hst.updateCalls _ fun _ => rfl, .updateCalls _ fun _ => rfl⟩

theorem chaining_writes (f : Segment → Segment) : chaining.Writes f := fun _ _ =>
  ⟨fun hst => hst.updateCalls _ fun _ => rfl, .updateCalls _ fun _ => rfl⟩

theorem chaining_mutates : chaining.Mutates := Manner.mutates_of_writes chaining_writes

theorem chaining_updates : chaining.Updates := fun _ _ changes _ =>
  ⟨fun hst => hst.updateCalls _ fun r => (CallRow.change_key r changes).1,
    .updateCalls _ fun r => (CallRow.key_change changes r).1⟩

theorem chaining_orders (r : Provider.Request) : chaining.Orders r := fun _ _ => ⟨fun hst => hst, .of_calls rfl⟩

namespace Work

open Manner (Makes)

theorem tame_activeSegment? (sid : String) : (activeSegment? sid).Tame := by
  have hlatest (sid : String) : (latest? sid none).Tame :=
    (tame_query _).bind fun row => (tame_readRow? row).bind fun _ => (Task.Tame.interrupt _).bind fun _ => .pure _
  refine (hlatest sid).bind fun s => ?_
  cases s with
  | some s => exact .pure _
  | none =>
    refine ((tame_query _).bind tame_readRow?).bind fun s => ?_
    cases s with
    | none => exact .pure _
    | some s => exact hlatest s.rootSid

/-- **A segment that was seen is handed on** by a write that keeps chains. -/
theorem upholds_handOver {st : State} {active : Segment} (hst : st.store.Identified) (hsaw : Scope.crowd.Saw st active)
    (h : Store.Handover) (scratch : Scratch) :
    (handOver active h scratch).Upholds (State.terms chaining.rely chaining.guar)
      (fun _ st' => st'.store.Identified) st := by
  have hrows (rows : CallRow × CallRow) : chaining.Makes (do
      Task.interrupt .statement
      return (← readRow rows.1, ← readRow rows.2) : Work (Segment × Segment)) fun _ => True :=
    (Makes.interrupt _).bind fun _ _ => (Makes.tame (tame_readRow rows.1)).bind fun _ _ =>
      (Makes.tame (tame_readRow rows.2)).bind fun _ _ => .pure trivial
  refine Task.Upholds.bind (P := fun _ st' => st' = st) (fun now st' hsame => ?_) (fun _ _ hsame => hsame ▸ hst)
    (Task.upholds_asks.2 rfl)
  subst hsame
  refine Task.Upholds.bind (P := fun _ st' => st'.store.Identified)
    (fun rows st'' hst' => Task.Upholds.mono (fun _ _ h => h.2) ((hrows rows).upholds st'' hst'))
    (fun _ _ hst' => hst') ?_
  refine Task.upholds_atomically (fun rows st'' hok => ?_) fun _ _ => hst
  split at hok
  · cases hok
  · split at hok
    case h_1 hdb =>
      cases hok
      refine ⟨_, rfl, ⟨fun _ => hst.handOver hdb, .handOver (fun a ha hid => ?_) hdb⟩, hst.handOver hdb⟩
      exact (hsaw.of_sameId (Scope.everybody_sound hst) ha hid).1
    all_goals cases hok

/-- **A transfer closes the row that it has seen.** -/
theorem makes_transfer (sid toUser : String) (fromUser reason tenant : Option String) :
    chaining.Makes (transfer sid toUser fromUser reason tenant) fun _ => True := by
  have hfail (e : Fault) {st : State} (hst : st.store.Identified) :
      (Task.fail e : Work (Segment × Segment)).Upholds (State.terms chaining.rely chaining.guar)
        (fun r st' => (∀ a, r = .ok a → True) ∧ st'.store.Identified) st :=
    Task.upholds_fail.2 ⟨fun _ _ => trivial, hst⟩
  refine ⟨fun st hst => Task.Upholds.bind (fun active st₁ h => ?_) (fun _ _ h => ⟨fun _ _ => trivial, h.2.2⟩)
    ((Makes.tame (tame_activeSegment? sid)).beside id (Scope.Keeps.activeSegment? sid) hst hst)⟩
  obtain ⟨hseen, -, hst₁⟩ := h
  cases active with
  | none => exact hfail _ hst₁
  | some active =>
    dsimp only
    split
    · exact hfail _ hst₁
    split
    · exact hfail _ hst₁
    refine Task.Upholds.bind (fun member st₂ h => ?_) (fun _ _ h => ⟨fun _ _ => trivial, h.2.2⟩)
      ((Makes.tame (tame_query _)).beside id (.tame (tame_query _)) hst₁ hst₁)
    obtain ⟨-, hev, hst₂⟩ := h
    have hsaw : Scope.crowd.Saw st₂ active := hev.saw ((hseen _ rfl).2 active rfl)
    cases member with
    | none => exact hfail _ hst₂
    | some m =>
      dsimp only
      split
      · exact hfail _ hst₂
      refine Task.Upholds.bind (P := fun _ st' => st'.store.Identified) (fun rows st₃ hst₃ => ?_)
        (fun _ _ h => ⟨fun _ _ => trivial, h⟩) ?_
      · have hconnect : chaining.Makes (connect rows.2) fun _ => True :=
          .connect chaining_mutates chaining_orders chaining_updates rows.2
        exact (hconnect.bind fun _ _ => (Makes.tame (tame_segment? _ _ _)).bind fun _ _ => .pure trivial).upholds st₃ hst₃
      · refine Task.Upholds.recover (fun _ _ h => h) (fun e st' h => ?_) (upholds_handOver hst₂ hsaw _ _)
        cases e <;> exact Task.upholds_fail.2 h

theorem serves_chaining : chaining.Serves Naming.Unmarked where
  mutates := chaining_mutates
  updates := chaining_updates
  orders := chaining_orders
  tables _ _ hcalls hcounted := ⟨fun hst => hst.of_calls hcalls hcounted, .of_calls hcalls⟩
  opens _ hsid _ _ _ _ _ hok := ⟨fun hst => hst.insertFirst hok, .insertFirst rfl rfl hsid hok⟩
  transfers := makes_transfer

end Work

/-! ## Steps -/

/-- A step that keeps chains: every row lives on, and calls are written in a way that keeps chains. -/
def State.Links (st st' : State) : Prop := Scope.crowd.Step st st' ∧ chaining.guar st st'

theorem Store.lives_of_step {st st' : State} (h : Scope.crowd.Step st st') (hst : st.store.Identified) :
    Lives st.store st'.store := by
  intro r hr r' hr' hkey
  obtain ⟨hsound, hev⟩ := h (Scope.everybody_sound hst)
  obtain ⟨a, ha, hlife, -⟩ := hev.persist r hr
  have hid : r'.segment.id = a.segment.id := congrArg Segment.Key.id (hkey.trans hlife.key.symm)
  rw [hsound.identified.keyed.eq_of_sameId hr' ha (hid ▸ decide_eq_true rfl)]
  exact hlife.mono fun _ _ => trivial

theorem State.Links.chained {st st' : State} (h : st.Links st') (hst : st.store.Identified ∧ Chained st.store) :
    st'.store.Identified ∧ Chained st'.store :=
  ⟨h.2.1 hst.1, hst.2.grows h.2.2 (Store.lives_of_step h.1 hst.1)⟩

/-- Work that goes on in the service: a request about a call that no transfer named is served, or work on the side is done,
such as that of a clock. -/
inductive Web.Ongoing : Work Web.Reply → Prop where
  | request (r : Web.Request) (hsid : Naming.Unmarked r.sid) : Ongoing (Web.serve r)
  | aside {t : Work Web.Reply} (ht : t.Tame) : Ongoing t

/-- **Whatever goes on keeps chains**, whatever others do meanwhile. -/
theorem Web.Ongoing.upholds {t : Work Web.Reply} (ht : Web.Ongoing t) {st : State} (hst : st.store.Identified) :
    t.Upholds (State.terms Scope.crowd.Others State.Links) (fun _ _ => True) st := by
  cases ht with
  | request r hsid =>
    have hlife := (Scope.everybody_keeps True r st).upholds (Scope.everybody_sound hst)
    have hgrows := (Work.serves_chaining.makes_serve r hsid).upholds st hst
    exact Task.Upholds.mono (fun _ _ _ => trivial)
      ((hlife.and hgrows).of_terms (fun _ _ h => ⟨h, h⟩) fun _ _ h => h)
  | aside ht => exact ht.upholds (fun _ _ h => ⟨Scope.Step.of_aside h, chaining.aside h⟩) st

/-- How the service goes on: something is done alone, or parts of it take turns in any order. -/
inductive State.Proceeds : State → State → Prop where
  | alone (st : State) {t : Work Web.Reply} (ht : Web.Ongoing t) : Proceeds st (t.run st).2
  | sideBySide (st : State) {n : Nat} (ts : Fin n → Work Web.Reply) (turns : List (Fin n)) (hts : ∀ i, Web.Ongoing (ts i)) :
    Proceeds st (Task.interleave turns ts st).2

/-- **However the service goes on**, it goes by steps of a kind, if whatever goes on does. -/
theorem State.Proceeds.steps {guar : State → State → Prop} (hothers : ∀ st st', guar st st' → Scope.crowd.Others st st')
    (hserved : ∀ {t : Work Web.Reply} {st : State}, Web.Ongoing t → st.store.Identified →
      t.Upholds (State.terms Scope.crowd.Others guar) (fun _ _ => True) st) {st st' : State} (h : st.Proceeds st')
    (hst : st.store.Identified) : Relation.ReflTransGen guar st st' := by
  cases h with
  | alone ht =>
    obtain ⟨w, hw, hsteps, -⟩ := (hserved ht hst).run (c := State.terms Scope.crowd.Others guar) Scope.Others.refl
    exact hw ▸ hsteps
  | sideBySide ts turns hts =>
    have hwaits (i : _) : (ts i).Waits (Task.termsOf id (fun _ => Scope.crowd.Others) (fun _ => guar) i)
        ((fun _ _ _ => True : _ → Except Fault Web.Reply → State → Prop) i) st := fun w hw =>
      hserved (hts i) (Scope.crowd_others hw hst)
    obtain ⟨w, hw, hsteps, -⟩ := Task.interleave_upholds
      (fun _ _ _ _ hr hr' => ⟨hr.1.trans hr'.1, .inl trivial⟩) (fun _ => Scope.Others.refl)
      (fun _ _ _ _ _ hg => hothers _ _ hg) (fun _ _ _ _ hpost _ => hpost) turns hwaits
    exact hw ▸ Relation.ReflTransGen.mono (fun _ _ h => h.choose_spec.2) _ _ hsteps

/-- **However the service goes on**, it goes by steps that keep chains. -/
theorem State.Proceeds.links {st st' : State} (h : st.Proceeds st') (hst : st.store.Identified) :
    Relation.ReflTransGen State.Links st st' :=
  h.steps (fun _ _ hg => ⟨hg.1, .inl trivial⟩) (fun ht hst => ht.upholds hst) hst

theorem State.chained_of_links {st st' : State} (h : Relation.ReflTransGen State.Links st st')
    (hst : st.store.Identified ∧ Chained st.store) : st'.store.Identified ∧ Chained st'.store := by
  induction h with
  | refl => exact hst
  | tail _ hstep ih => exact hstep.chained ih

/-- **However the service goes on**, the rows of calls form chains. -/
theorem State.Proceeds.chained {st st' : State} (h : st.Proceeds st') (hst : st.store.Identified ∧ Chained st.store) :
    st'.store.Identified ∧ Chained st'.store :=
  State.chained_of_links (h.links hst.1) hst

/-- **However the service goes on for long**, it goes by steps that keep chains. -/
theorem State.links_of_proceeds {st st' : State} (h : Relation.ReflTransGen State.Proceeds st st')
    (hst : st.store.Identified ∧ Chained st.store) : Relation.ReflTransGen State.Links st st' := by
  induction h with
  | refl => exact .refl
  | tail _ hstep ih => exact ih.trans (hstep.links (State.chained_of_links ih hst).1)

theorem State.chained_of_no_calls {st : State} (hnone : st.store.calls = []) :
    st.store.Identified ∧ Chained st.store := by
  refine ⟨⟨?_, fun n _ r hr => ?_⟩, Store.chained_of_no_calls hnone⟩
  · rw [Store.Keyed, hnone]
    exact .nil
  · rw [hnone] at hr
    cases hr

/-- **From no calls on** the rows of calls form chains. -/
theorem State.chained_of_proceeds {st st' : State} (hnone : st.store.calls = [])
    (h : Relation.ReflTransGen State.Proceeds st st') : st'.store.Identified ∧ Chained st'.store :=
  have hst := State.chained_of_no_calls hnone
  State.chained_of_links (State.links_of_proceeds h hst) hst

/-- **However the service goes on**, it goes by steps of every manner in which requests are served. -/
theorem State.Proceeds.makes {M : Manner} (hM : M.Serves Naming.Unmarked)
    (hrely : ∀ {st st'}, Scope.crowd.Others st st' → M.rely st st') (hinv : ∀ {st : State}, st.store.Identified → M.inv st)
    {st st' : State} (h : st.Proceeds st') (hst : st.store.Identified) :
    Relation.ReflTransGen (fun st st' => st.Links st' ∧ M.guar st st') st st' := by
  refine h.steps (fun _ _ hg => ⟨hg.1.1, .inl trivial⟩) (fun {t st} ht hst => ?_) hst
  have hmakes : t.Upholds (State.terms M.rely M.guar) (fun _ _ => True) st := by
    cases ht with
    | request r hsid => exact Task.Upholds.mono (fun _ _ _ => trivial) ((hM.makes_serve r hsid).upholds st (hinv hst))
    | aside ht => exact ht.upholds (fun _ _ => M.aside) st
  exact Task.Upholds.mono (fun _ _ _ => trivial)
    (((ht.upholds hst).and hmakes).of_terms (fun _ _ h => ⟨h, hrely h⟩) fun _ _ h => h)

/-- **What holds of no calls, and is kept by every step of a manner** in which requests are served, holds however the service
has gone on. -/
theorem State.invariant_of_proceeds {M : Manner} (hM : M.Serves Naming.Unmarked)
    (hrely : ∀ {st st'}, Scope.crowd.Others st st' → M.rely st st') (hinv : ∀ {st : State}, st.store.Identified → M.inv st)
    {I : State → Prop} (hstep : ∀ {st st'}, st.store.Identified → st.Links st' → M.guar st st' → I st → I st')
    {st st' : State} (hnone : st.store.calls = []) (hI : I st) (h : Relation.ReflTransGen State.Proceeds st st') :
    (st'.store.Identified ∧ Chained st'.store) ∧ I st' := by
  induction h with
  | refl => exact ⟨State.chained_of_no_calls hnone, hI⟩
  | tail _ hproceeds ih =>
    have hsteps := hproceeds.makes hM hrely hinv ih.1.1
    clear hproceeds
    induction hsteps with
    | refl => exact ih
    | tail _ h ih => exact ⟨h.1.chained ih.1, hstep ih.1.1 h.1 h.2 ih.2⟩

/-! ## Shape -/

/-- The newest segment of a call is looked up and read. -/
theorem Work.run_latest? {st : State} (hup : st.isUp = true) {sid : String} {tenant : Option String} {r : CallRow}
    {s : Segment} (hr : st.store.latestRow (Naming.root sid) tenant = some r) (hs : r.read = .ok s) :
    (latest? sid tenant).run st = (.ok (some s), st) := by
  have hquery : (query (Store.latestRow (Naming.root sid) tenant)).run st = (.ok (some r), st) :=
    run_statement_ok hup (by rw [hr])
  have hrow : (readRow r).run st = (.ok s, st) := by
    rw [readRow, hs]
    rfl
  have hread : (readRow? (some r)).run st = (.ok (some s), st) := Task.run_bind_ok hrow
  rw [latest?, Task.run_bind_ok hquery, Task.run_bind_ok hread]
  rfl

/-- **The calls that the service has form chains.**  From no calls on, whatever goes on side by side and in whatever order:
the segments of a call are numbered upwards without gap from zero and are of one tenant; at most one of them is open; that one
has the last number; and whoever looks for the newest segment, by the id of any segment of the call, is given it. -/
theorem calls_form_chains {st st' : State} (hnone : st.store.calls = [])
    (h : Relation.ReflTransGen State.Proceeds st st') (root : String) :
    let rows := Store.chainOf root st'.store
    rows.map (fun r => r.segment.number) = (List.range rows.length).map Int.ofNat ∧
      (∀ r ∈ rows, ∀ a ∈ rows, a.segment.tenantId = r.segment.tenantId) ∧
      (∀ r ∈ rows, ∀ a ∈ rows, r.segment.isClosed = false → a.segment.isClosed = false → a = r) ∧
      ∀ r ∈ rows, r.segment.isClosed = false → r.segment.number + 1 = rows.length ∧
        ∃ s, r.read = .ok s ∧ (st'.isUp = true → ∀ sid tenant, sid = root ∨ (∃ a ∈ rows, a.segment.callSid = sid) →
          ownedBy tenant r.segment.tenantId = true → ((Work.latest? sid tenant).run st').1 = .ok (some s)) := by
  intro rows
  have hchained := State.chained_of_proceeds hnone h
  have hchain : Store.Chain root rows := hchained.2 root
  refine ⟨hchain.numbered, hchain.alike, fun r hr a ha hopen hopen' => ?_, fun r hr hopen => ⟨hchain.last r hr hopen, ?_⟩⟩
  · have hlast := hchain.getLast?_of_number hr (hchain.last r hr hopen)
    rw [hchain.getLast?_of_number ha (hchain.last a ha hopen')] at hlast
    exact Option.some.inj hlast
  · obtain ⟨s, hs⟩ := hchain.legible r hr
    refine ⟨s, hs, fun hup sid tenant hsid htenant => ?_⟩
    have hmarked := (hchain.named r hr).2
    have hroot : Naming.root sid = root := by
      rcases hsid with rfl | ⟨a, ha, rfl⟩
      · exact Naming.root_of_unmarked hmarked
      · rw [(hchain.named a ha).1]
        exact Naming.root_segment hmarked _
    rw [Work.run_latest? hup (hroot ▸ Store.latestRow_of_open hchain hr hopen htenant) hs]

/-- Two transfers of one call at the same time add one segment. -/
theorem transfers_at_once_form_one_chain :
    let st := { State.holding [] with
      store := { Store.empty with
        lines := [⟨"L", "T", "+15550199", none, true, true, none⟩]
        users := [⟨"U", "u@example.org", none, none⟩]
        members := [⟨"M", "T", "U", true⟩] }
      settings := { (State.holding []).settings with authToken := "secret", apiKey := "key" } }
    let incoming : Web.Request := ⟨.post, "/voice/incoming/T/L", "",
      [("host", "localhost"), ("content-type", "application/x-www-form-urlencoded")], "CallSid=CA1"⟩
    let transfer : Web.Request := ⟨.post, "/api/tenants/T/calls/CA1/transfer", "",
      [("host", "localhost"), ("content-type", "application/json"), ("x-api-key", "key")],
      "\x7b\x22toUserId\x22: \x22M\x22\x7d"⟩
    let turns := (List.replicate 11 [(0 : Fin 2), 1]).flatten
    let st' := (Task.interleave turns (fun _ => Web.serve transfer) ((Web.serve incoming).run st).2).2
    st.store.calls = [] ∧ Relation.ReflTransGen State.Proceeds st st' ∧
      (Store.chainOf "CA1" st'.store).map (fun r => r.segment.number) = [0, 1] ∧
      ∃ r ∈ Store.chainOf "CA1" st'.store, r.segment.number = 1 ∧
        ∃ s, r.read = .ok s ∧ ((Work.latest? "CA1_transfer_1" none).run st').1 = .ok (some s) := by
  intro st incoming transfer turns st'
  have hproceeds : Relation.ReflTransGen State.Proceeds st st' :=
    .tail (.single (.alone st (.request incoming (by decide +kernel))))
      (.sideBySide _ (fun _ => Web.serve transfer) turns fun _ => .request transfer (by decide +kernel))
  have hnone : st.store.calls = [] := rfl
  obtain ⟨hnumbers, -, -, hopen⟩ := calls_form_chains hnone hproceeds "CA1"
  have hends : st'.isUp = true ∧ (Store.chainOf "CA1" st'.store).length = 2 ∧
      ∃ r ∈ Store.chainOf "CA1" st'.store, r.segment.isClosed = false ∧ r.segment.callSid = "CA1_transfer_1" := by
    decide +kernel
  obtain ⟨hup, hlength, r, hr, hropen, hsid⟩ := hends
  obtain ⟨hnumber, s, hs, hlatest⟩ := hopen r hr hropen
  rw [hlength] at hnumbers hnumber
  exact ⟨rfl, hproceeds, hnumbers, r, hr, by omega, s, hs, hlatest hup _ none (.inr ⟨r, hr, hsid⟩) rfl⟩

end Switchboard
