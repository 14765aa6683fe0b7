import Switchboard.Proofs.Service.Scoped
import Switchboard.Service.Interpreter
import Switchboard.Service.Transfer
/-!
# Manners of work

Much of what serves a request need not be known in detail: it is enough to say which changes it makes.  A manner says what
work relies on at its pauses, which changes it may make and what holds throughout.  Work on the side fits every manner, and
so does whoever counts up a row; what else a manner allows (a deed on a segment, an order to the telephone provider, a
change of columns) is assumed where it is needed, so that one walk through the service serves every manner that allows
these.
-/
namespace Switchboard

open Provider (Request)
open Store (sameId isAt Change CallRow.overwrite CallRow.change)

/-- How work goes about the state. -/
structure Manner where
  /-- What others may do at the pauses. -/
  rely : State → State → Prop
  /-- A change that the work may make. -/
  guar : State → State → Prop
  /-- What holds throughout. -/
  inv : State → Prop
  lasts : ∀ {st st'}, inv st → rely st st' ∨ guar st st' → inv st'
  aside : ∀ {st st'}, st.Aside st' → guar st st'
  contends : ∀ (st : State) id n,
    guar st { st with conflicts := n, store := st.store.updateCalls (fun r => sameId r.segment.id id) CallRow.written }

namespace Manner

variable {M : Manner} {α β : Type} {t : Work α} {P Q : α → Prop} {R : β → Prop}

/-- Work of a manner, whatever others do meanwhile; what it gives is as `P` says. -/
structure Makes (M : Manner) (t : Work α) (P : α → Prop) : Prop where
  upholds : ∀ st, M.inv st → t.Upholds (State.terms M.rely M.guar) (fun r st' => (∀ a, r = .ok a → P a) ∧ M.inv st') st

/-! ## What a manner may allow -/

/-- A conditional write of a changed segment. -/
def Writes (M : Manner) (f : Segment → Segment) : Prop := ∀ (st : State) s,
  M.guar st { st with store := st.store.updateCalls (isAt (f s).id s.revision) (CallRow.overwrite (f s)) }

/-- A change of columns that moves no segment to another conference. -/
def Updates (M : Manner) : Prop := ∀ (st : State) id changes, changes.all Change.sparesRoom = true →
  M.guar st { st with store := st.store.updateCalls (fun r => sameId r.segment.id id) (CallRow.change changes) }

/-- An order to the telephone provider. -/
def Orders (M : Manner) (r : Request) : Prop :=
  ∀ st : State, M.inv st → M.guar st { st with requests := st.requests ++ [r] }

/-- Every order to the telephone provider that places no leg. -/
def Moves (M : Manner) : Prop := ∀ r : Request, r.leg? = none → M.Orders r

/-- The opening of a call. -/
def Opens (M : Manner) (c : Work.NewCall) : Prop := ∀ (st : State) buyer now row db,
  Store.insertFirst (c.segment buyer now) st.store = .ok (row, db) → M.guar st { st with store := db }

/-- Every row that is stored has a root call id of a kind. -/
def Rooted (M : Manner) (A : String → Prop) : Prop := ∀ st, M.inv st → ∀ r ∈ st.store.calls, A r.segment.rootSid

/-- A write of flows and lines. -/
def WritesTables (M : Manner) : Prop := ∀ (st : State) db, db.calls = st.store.calls → st.store.counted ≤ db.counted →
  M.guar st { st with store := db }

namespace Makes

/-! ## Parts of work -/

theorem mono (h : M.Makes t P) (hPQ : ∀ a, P a → Q a) : M.Makes t Q :=
  ⟨fun st hi => Task.Upholds.mono (fun _ _ h => ⟨fun a ha => hPQ a (h.1 a ha), h.2⟩) (h.upholds st hi)⟩

theorem done (h : M.Makes t P) : M.Makes t fun _ => True := h.mono fun _ _ => trivial

theorem pure {a : α} (h : P a) : M.Makes (Pure.pure a) P :=
  ⟨fun _ hi => Task.upholds_pure.2 ⟨fun _ hb => Except.ok.inj hb ▸ h, hi⟩⟩

theorem fail (e : Fault) : M.Makes (Task.fail e : Work α) P := ⟨fun _ hi => Task.upholds_fail.2 ⟨nofun, hi⟩⟩

theorem bind {f : α → Work β} (ht : M.Makes t P) (hf : ∀ a, P a → M.Makes (f a) R) : M.Makes (t >>= f) R :=
  ⟨fun st hi => Task.Upholds.bind (fun a st' h => (hf a (h.1 a rfl)).upholds st' h.2) (fun _ _ h => ⟨nofun, h.2⟩)
    (ht.upholds st hi)⟩

theorem map {f : α → β} (ht : M.Makes t P) (hf : ∀ a, P a → R (f a)) : M.Makes (f <$> t) R :=
  ht.bind fun a ha => pure (hf a ha)

theorem discard (ht : M.Makes t P) : M.Makes (Functor.discard t) fun _ => True := ht.bind fun _ _ => pure trivial

theorem recover {handle : Fault → Work α} (ht : M.Makes t P) (hok : ∀ a, P a → Q a) (hf : ∀ e, M.Makes (handle e) Q) :
    M.Makes (Task.recover handle t) Q := by
  refine ⟨fun st hi => Task.Upholds.recover (fun a st' h => ⟨fun b hb => ?_, h.2⟩)
    (fun e st' h => (hf e).upholds st' h.2) (ht.upholds st hi)⟩
  cases hb
  exact hok a (h.1 a rfl)

theorem attempt (ht : M.Makes t P) : M.Makes (Task.attempt t) fun _ => True :=
  ⟨fun st hi => Task.Upholds.attempt (fun _ _ h => ⟨fun _ _ => trivial, h.2⟩) (ht.upholds st hi)⟩

theorem ofExcept {r : Except Fault α} (h : ∀ a, r = .ok a → P a) : M.Makes (Task.ofExcept r) P :=
  ⟨fun _ hi => Task.upholds_ofExcept.2 ⟨h, hi⟩⟩

theorem look {k : State → Work α} (hk : ∀ st, M.Makes (k st) P) : M.Makes (Task.look k) P :=
  ⟨fun st hi => Task.upholds_look.2 ((hk st).upholds st hi)⟩

theorem tame (ht : t.Tame) : M.Makes t fun _ => True :=
  ⟨fun _ hi => Task.Upholds.mono (fun _ _ h => ⟨fun _ _ => trivial, h.2⟩)
    ((ht.upholds (fun _ _ => M.aside) _).and_stable (fun _ _ => M.lasts) hi)⟩

theorem interrupt (p : Point) : M.Makes (Task.interrupt p : Work Unit) fun _ => True :=
  ⟨fun _ hi => Task.upholds_interrupt.2 fun _ hr => ⟨fun _ _ => trivial, M.lasts hi (.inl hr)⟩⟩

theorem update {f : State → State} (h : ∀ st, M.inv st → M.guar st (f st)) :
    M.Makes (Task.update f : Work Unit) fun _ => True :=
  ⟨fun st hi => Task.upholds_update.2 ⟨f st, rfl, h st hi, fun _ _ => trivial, M.lasts hi (.inr (h st hi))⟩⟩

theorem atomically {f : State → Except Fault (α × State)}
    (h : ∀ st a st', M.inv st → f st = .ok (a, st') → M.guar st st' ∧ P a) : M.Makes (Task.atomically f) P := by
  refine ⟨fun st hi => Task.upholds_atomically (fun a st' hok => ?_) fun _ _ => ⟨nofun, hi⟩⟩
  obtain ⟨hguar, hP⟩ := h st a st' hi hok
  refine ⟨st', rfl, hguar, fun b hb => ?_, M.lasts hi (.inr hguar)⟩
  cases hb
  exact hP

theorem statement {f : Store → Except StoreFault (α × Store)}
    (h : ∀ (st : State) a db, M.inv st → f st.store = .ok (a, db) → M.guar st { st with store := db } ∧ P a) :
    M.Makes (Work.statement f) P := by
  refine ⟨fun st hi => Work.upholds_statement (fun a db hok => ?_) ⟨nofun, hi⟩ fun _ => ⟨nofun, hi⟩⟩
  obtain ⟨hguar, hP⟩ := h st a db hi hok
  refine ⟨_, rfl, hguar, fun st' hr => ⟨fun b hb => ?_, M.lasts (M.lasts hi (.inr hguar)) (.inl hr)⟩⟩
  cases hb
  exact hP

theorem mapM {f : α → Work β} (hf : ∀ a, M.Makes (f a) fun _ => True) : ∀ as : List α, M.Makes (as.mapM f) fun _ => True
  | [] => by
    rw [List.mapM_nil]
    exact pure trivial
  | a :: rest => by
    rw [List.mapM_cons]
    exact (hf a).bind fun _ _ => (mapM hf rest).bind fun _ _ => pure trivial

theorem forM {f : α → Work PUnit} (hf : ∀ a, M.Makes (f a) fun _ => True) : ∀ as : List α, M.Makes (as.forM f) fun _ => True
  | [] => pure trivial
  | a :: rest => (hf a).bind fun _ _ => forM hf rest

theorem quietly (h : M.Makes t P) : M.Makes (Work.quietly t) fun _ => True :=
  h.discard.recover (fun _ _ => trivial) fun _ => pure trivial

/-! ## Calls -/

theorem readRow? (row : Option CallRow) : M.Makes (Work.readRow? row) fun _ => True := tame (Work.tame_readRow? row)

theorem latest? (sid : String) (tenant : Option String) : M.Makes (Work.latest? sid tenant) fun _ => True :=
  (tame (Work.tame_query _)).bind fun _ _ => (readRow? _).bind fun _ _ => (interrupt _).bind fun _ _ => pure trivial

theorem contend (id : String) : M.Makes (Work.contend id) fun _ => True := by
  refine update fun st _ => ?_
  split
  · exact M.aside (.refl st)
  · exact M.contends st id _

section Rooted

variable {A : String → Prop}

theorem readRow {r : CallRow} (h : A r.segment.rootSid) : M.Makes (Work.readRow r) fun s => A s.rootSid := by
  refine ofExcept fun s hs => ?_
  cases hr : r.read with
  | error e => rw [hr] at hs; cases hs
  | ok t =>
    rw [hr] at hs
    cases hs
    have hroot : r.segment.rootSid = s.rootSid := congrArg Segment.Key.rootSid (CallRow.key_of_read hr)
    exact hroot ▸ h

variable (hrows : M.Rooted A)
include hrows

theorem found {f : Store → Except StoreFault (Option CallRow × Store)}
    (hf : ∀ db row db', f db = .ok (row, db') → db' = db ∧ ∀ r, row = some r → r ∈ db.calls) :
    M.Makes (Work.statement f >>= Work.readRow?) fun s => ∀ t, s = some t → A t.rootSid := by
  have hrow : M.Makes (Work.statement f) fun row => ∀ r, row = some r → A r.segment.rootSid := by
    refine statement fun st row db hi hok => ?_
    obtain ⟨rfl, hmem⟩ := hf _ _ _ hok
    exact ⟨M.aside (.refl st), fun r hr => hrows st hi r (hmem r hr)⟩
  refine hrow.bind fun row hrow => ?_
  cases row with
  | none => exact pure fun t ht => nomatch ht
  | some r => exact (readRow (hrow r rfl)).bind fun t ht => pure fun u hu => Option.some.inj hu ▸ ht

theorem segment? (sid : String) (number : Int) (tenant : Option String) :
    M.Makes (Work.segment? sid number tenant) fun s => ∀ t, s = some t → A t.rootSid := by
  refine found hrows fun db row db' hok => ?_
  split at hok
  · cases hok
    exact ⟨rfl, fun r hr => List.mem_of_find?_eq_some hr⟩
  · cases hok

theorem newest? (sid : String) (tenant : Option String) :
    M.Makes (Work.latest? sid tenant) fun s => ∀ t, s = some t → A t.rootSid := by
  have hfound : M.Makes (Work.query (Store.latestRow (Naming.root sid) tenant) >>= Work.readRow?)
      fun s => ∀ t, s = some t → A t.rootSid := by
    refine found hrows fun db row db' hok => ?_
    cases hok
    exact ⟨rfl, fun r hr => (List.mem_filter.1 (Store.mem_of_newest hr)).1⟩
  unfold Work.latest?
  rw [← bind_assoc]
  exact hfound.bind fun s hs => (interrupt _).bind fun _ _ => pure hs

/-- **A change of a segment** is a conditional write, made as often as others come before it; it gives what it makes of a
segment that was found. -/
theorem mutate_found {f : Segment → Segment × α} (hf : M.Writes fun s => (f s).1) (sid : String) (number : Int)
    (tenant : Option String) :
    M.Makes (Work.mutate sid number tenant f) fun r => ∀ p, r = some p → ∃ s, A s.rootSid ∧ p.2 = (f s).2 := by
  unfold Work.mutate
  generalize Work.mutateTries = tries
  induction tries with
  | zero => exact fail _
  | succ tries ih =>
    refine (segment? hrows sid number none).bind fun found hfound => (interrupt _).bind fun _ _ => ?_
    cases found with
    | none => exact pure fun p hp => nomatch hp
    | some s =>
      have hs : A s.rootSid := hfound s rfl
      dsimp only
      split
      · exact pure fun p hp => nomatch hp
      · split
        · exact pure fun p hp => ⟨s, hs, Option.some.inj hp ▸ rfl⟩
        · have hwrite : M.Makes (Work.statement (Store.writeAt (f s).1 s.revision)) fun _ => True := by
            refine statement fun st row db _ hok => ⟨?_, trivial⟩
            unfold Store.writeAt at hok
            split at hok
            · cases hok
            · cases hok
              exact hf st s
          refine (contend _).bind fun _ _ => hwrite.bind fun row _ => ?_
          cases row with
          | none => exact ih
          | some row => exact (tame (Work.tame_readRow row)).bind fun _ _ => pure fun p hp => ⟨s, hs, Option.some.inj hp ▸ rfl⟩

end Rooted

theorem mutate {f : Segment → Segment × α} (hf : M.Writes fun s => (f s).1) (sid : String) (number : Int)
    (tenant : Option String) : M.Makes (Work.mutate sid number tenant f) fun _ => True :=
  (mutate_found (A := fun _ => True) (fun _ _ _ _ => trivial) hf sid number tenant).done

end Makes

/-- Every change of a segment that is a deed. -/
def Mutates (M : Manner) : Prop := ∀ {α : Type} (f : Segment → Segment × α) (d : Segment.Deed), (∀ s, (f s).1 = s.did d) →
  ∀ sid number tenant, M.Makes (Work.mutate sid number tenant f) fun _ => True

theorem mutates_of_writes (h : ∀ f, M.Writes f) : M.Mutates := by
  intro α f d _ sid number tenant
  exact .mutate (h _) sid number tenant

namespace Makes

theorem prepareAttempt {resume : Resume} {targets : List DialTarget} {callerId : Option String} {timeout : Int}
    {record : Bool} {sid : String} {number : Int}
    (h : M.Makes (Work.mutate sid number none (Segment.startAttempt resume targets callerId timeout record)) fun _ => True) :
    M.Makes (Work.prepareAttempt sid number resume targets callerId timeout record) fun _ => True :=
  h.bind fun _ _ => pure trivial

theorem updateCall (h : M.Updates) (id : String) {changes : List Change} (hspares : changes.all Change.sparesRoom = true) :
    M.Makes (Work.updateCall id changes) fun _ => True := by
  unfold Work.updateCall
  split
  · exact pure trivial
  · refine (statement (P := fun _ => True) fun st row db _ hok => ⟨?_, trivial⟩).bind fun row _ => readRow? row
    unfold Store.changeCall at hok
    split at hok
    · cases hok
    · split at hok
      · cases hok
        exact M.aside (.refl st)
      · split at hok
        · cases hok
        · cases hok
          exact h st id changes hspares

theorem createCall {c : Work.NewCall} (h : M.Opens c) : M.Makes (Work.createCall c) fun _ => True := by
  refine (tame (Work.tame_buyer? _ _)).bind fun buyer _ => (tame Work.tame_now).bind fun now _ => ?_
  refine (statement (P := fun _ => True) fun st row db _ hok => ⟨h st buyer now row db hok, trivial⟩).bind fun row _ => ?_
  cases row with
  | none => exact (tame (Work.tame_query _)).bind fun _ _ => readRow? _
  | some row => exact (tame (Work.tame_readRow row)).bind fun _ _ => pure trivial

/-! ## Orders -/

theorem note {r : Request} (h : M.Orders r) : M.Makes (Work.note r) fun _ => True := update h

theorem terminateCall {sid : String} (h : ∀ done, M.Orders (.terminate sid done)) :
    M.Makes (Work.terminateCall sid) fun _ => True :=
  look fun _ => (note (h _)).bind fun _ _ => pure trivial

theorem redirectCall {sid document : String} (h : ∀ done, M.Orders (.redirect sid document done)) :
    M.Makes (Work.redirectCall sid document) fun _ => True :=
  look fun _ => (note (h _)).bind fun _ _ => pure trivial

section Moves

variable (hmoves : M.Moves)
include hmoves

theorem endLegs : ∀ legs : List String, M.Makes (Work.endLegs legs) fun _ => True
  | [] => pure trivial
  | _ :: rest => (terminateCall fun _ => hmoves _ rfl).discard.bind fun _ _ => endLegs rest

theorem applyDecision? : ∀ d : Option Decision, M.Makes (Work.applyDecision? d) fun _ => True
  | none => pure trivial
  | some d => by
    refine (tame Work.tame_callbacks).bind fun _ _ => ?_
    split
    · exact (redirectCall fun _ => hmoves _ rfl).discard
    · exact (terminateCall fun _ => hmoves _ rfl).discard

end Moves

theorem placeCall (horders : ∀ r, M.Orders r) (leg : Provider.Leg) : M.Makes (Work.placeCall leg) fun _ => True := by
  refine look fun st => ?_
  split
  · exact (note (horders _)).bind fun _ _ => pure trivial
  · refine bind (P := fun _ => True) (update fun st _ => M.aside ⟨rfl, rfl, rfl, rfl, rfl⟩) fun _ _ => ?_
    exact (note (horders _)).bind fun _ _ => pure trivial

/-! ## Attempts -/

theorem afterwards {r : Option (Segment × α)} {f : Segment → α → Work Unit} (h : ∀ s a, M.Makes (f s a) fun _ => True) :
    M.Makes (Work.afterwards r f) fun _ => True := by
  cases r with
  | none => exact pure trivial
  | some p => exact h p.1 p.2

section Attempts

variable (hmutates : M.Mutates)
include hmutates

/-! ### What places no leg -/

section Moves

variable (hmoves : M.Moves)
include hmoves

theorem finishDialing (sid : String) (number seq : Int) : M.Makes (Work.finishDialing sid number seq) fun _ => True :=
  (tame Work.tame_now).bind fun now _ =>
    (hmutates (Segment.finishDialing seq now) (.act (.finish seq now)) (fun _ => rfl) _ _ _).bind fun _ _ =>
      afterwards fun _ _ => applyDecision? hmoves _

theorem agentAnswered (sid : String) (number : Int) (leg : String) (seq : Option Int) :
    M.Makes (Work.agentAnswered sid number leg seq) fun _ => True :=
  (tame Work.tame_now).bind fun now _ =>
    (hmutates (Segment.agentAnswered leg seq now) (.act (.agentJoins leg seq now)) (fun _ => rfl) _ _ _).bind fun _ _ =>
      afterwards fun _ _ => endLegs hmoves _

theorem terminatePending (sid : String) (number : Int) (seq : Option Int) :
    M.Makes (Work.terminatePending sid number seq) fun _ => True := by
  refine (hmutates (Segment.terminatePending seq) (.act (.callerLeaves seq)) (fun _ => rfl) _ _ _).bind fun r _ => ?_
  cases r with
  | none => exact pure trivial
  | some p => exact (endLegs hmoves _).bind fun _ _ => pure trivial

/-- An event of a conference is served in a manner that places no leg, but for the join of the caller. -/
theorem conferenceEvent (sid : String) (number : Int) (event : Work.ConferenceEvent) (participant : Option String)
    (seq : Option Int) (conferenceSid : Option String)
    (hjoins : event = .joined → participant = some sid →
      M.Makes (Work.callerJoined sid number seq conferenceSid) fun _ => True) :
    M.Makes (Work.conferenceEvent sid number event participant seq conferenceSid) fun _ => True := by
  cases event <;> dsimp only [Work.conferenceEvent]
  case joined =>
    split
    · exact hjoins rfl ‹_›
    · split
      · exact agentAnswered hmutates hmoves _ _ _ _
      · exact pure trivial
  case left =>
    split
    · exact (terminatePending hmutates hmoves _ _ _).discard
    · split
      · refine (tame (Work.tame_segment? _ _ _)).bind fun s _ => ?_
        split
        · exact pure trivial
        · split
          · exact (terminateCall fun _ => hmoves _ rfl).discard
          · exact pure trivial
      · exact pure trivial
  case ended => exact (terminatePending hmutates hmoves _ _ _).discard
  case other => exact pure trivial

theorem legEnded (sid : String) (number : Int) (leg : String) (status : Status) (seq : Option Int) :
    M.Makes (Work.legEnded sid number leg status seq) fun _ => True := by
  unfold Work.legEnded
  split
  · exact pure trivial
  · refine (tame Work.tame_now).bind fun now _ => ?_
    refine (hmutates (Segment.legEnded leg seq now) (.act (.legEnds leg seq now)) (fun _ => rfl) _ _ _).bind fun r _ => ?_
    cases r with
    | none => exact pure trivial
    | some p => exact (applyDecision? hmoves _).bind fun _ _ => pure trivial

theorem claimAfterDial (sid : String) (number : Int) (seq : Option Int) :
    M.Makes (Work.claimAfterDial sid number seq) fun _ => True := by
  refine (tame Work.tame_now).bind fun now _ => ?_
  refine (hmutates (Segment.claimAfterDial seq now) (.act (.dialEnds seq now)) (fun _ => rfl) _ _ _).bind fun r _ => ?_
  cases r with
  | none => exact pure trivial
  | some p => exact (endLegs hmoves _).bind fun _ _ => pure trivial

end Moves

/-! ### What places legs -/

section Orders

variable (horders : ∀ r, M.Orders r)
include horders

theorem placeLeg (s : Segment) (target : DialTarget) : M.Makes (Work.placeLeg s target) fun _ => True := by
  refine (tame Work.tame_callbacks).bind fun _ _ => (tame Work.tame_settings).bind fun _ _ => ?_
  refine (placeCall horders _).bind fun sid _ => ?_
  cases sid with
  | none => exact pure trivial
  | some sid =>
    refine (hmutates (Segment.registerLeg s.scratch.attemptSeq sid target) (.act (.register s.scratch.attemptSeq sid target))
      (fun _ => rfl) _ _ _).bind fun r _ => ?_
    dsimp only
    split
    · exact (terminateCall fun _ => horders _).discard.bind fun _ _ => pure trivial
    · exact pure trivial

theorem placeLegsFor (s : Segment) : ∀ targets : List DialTarget, M.Makes (Work.placeLegsFor s targets) fun _ => True
  | [] => pure trivial
  | target :: rest => (placeLeg hmutates horders s target).bind fun _ _ => (placeLegsFor s rest).bind fun _ _ => pure trivial

theorem callerJoined (sid : String) (number : Int) (seq : Option Int) (conferenceSid : Option String) :
    M.Makes (Work.callerJoined sid number seq conferenceSid) fun _ => True := by
  refine (hmutates (Segment.callerJoined seq conferenceSid) (.act (.callerJoins seq conferenceSid)) (fun _ => rfl)
    _ _ _).bind fun _ _ => afterwards fun s dial => ?_
  split
  · exact (placeLegsFor hmutates horders s _).discard.bind fun _ _ => finishDialing hmutates (fun r _ => horders r) _ _ _
  · exact pure trivial

theorem connect (hupdates : M.Updates) (s : Segment) : M.Makes (Work.connect s) fun _ => True := by
  refine (tame Work.tame_callbacks).bind fun _ _ => (redirectCall fun _ => horders _).discard.bind fun _ _ => ?_
  refine (placeLegsFor hmutates horders s _).bind fun placed _ => ?_
  split
  · refine (tame Work.tame_now).bind fun _ _ => (updateCall hupdates _ rfl).discard.bind fun _ _ => ?_
    exact (terminateCall fun _ => horders _).discard.bind fun _ _ => fail _
  · exact finishDialing hmutates (fun r _ => horders r) _ _ _

end Orders

end Attempts

/-! ## Transfers -/

section Transfers

variable {A : String → Prop}

/-- **A call is handed on** by one write, of a call of a kind; then both rows are read. -/
theorem handOver {active : Segment} {h : Store.Handover} {scratch : Scratch} (hactive : A active.rootSid)
    (hguar : ∀ (st : State) rows db now, M.inv st → st.store.handOver active h scratch now = .ok (rows, db) →
      M.guar st { st with store := db }) :
    M.Makes (Work.handOver active h scratch) fun p => A p.2.rootSid := by
  refine (tame Work.tame_now).bind fun now _ => ?_
  refine bind (P := fun rows => A rows.2.segment.rootSid) (atomically fun st rows st' hi hok => ?_) fun rows hrows => ?_
  · split at hok
    · cases hok
    · split at hok
      case h_1 hdb =>
        cases hok
        obtain ⟨r, s, -, -, -, -, -, hinsert⟩ := Store.handOver_eq_ok hdb
        obtain ⟨-, hrow, -⟩ := Store.insertCall_eq_ok hinsert
        exact ⟨hguar st rows _ now hi hdb, hrow ▸ hactive⟩
      all_goals cases hok
  · refine (interrupt _).bind fun _ _ => (tame (Work.tame_readRow rows.1)).bind fun _ _ => ?_
    exact (readRow hrows).bind fun _ ht => pure ht

/-- **A transfer** hands on the active segment of a call, and has the agent of the next one dialed. -/
theorem transfer {sid toUser : String} {fromUser reason tenant : Option String}
    (hactive : M.Makes (Work.activeSegment? sid) fun s => ∀ t, s = some t → A t.rootSid)
    (hover : ∀ (active : Segment) h (scratch : Scratch), A active.rootSid → scratch.agentDialedFromTransfer = true →
      M.Makes (Work.handOver active h scratch) fun p => A p.2.rootSid)
    (hconnect : ∀ s : Segment, A s.rootSid → M.Makes (Work.connect s) fun _ => True) :
    M.Makes (Work.transfer sid toUser fromUser reason tenant) fun _ => True := by
  refine hactive.bind fun active hactive => ?_
  cases active with
  | none => exact fail _
  | some active =>
    dsimp only
    split
    · exact fail _
    split
    · exact fail _
    refine (tame (Work.tame_query _)).bind fun member _ => ?_
    cases member with
    | none => exact fail _
    | some m =>
      dsimp only
      split
      · exact fail _
      refine bind (P := fun p => A p.2.rootSid) ?_ fun p hp => ?_
      · refine (hover active _ _ (hactive active rfl) rfl).recover (fun _ h => h) fun e => ?_
        cases e <;> exact fail _
      · exact (hconnect p.2 hp).bind fun _ _ => (tame (Work.tame_segment? _ _ _)).bind fun _ _ => pure trivial

end Transfers

end Makes

end Manner

end Switchboard
