import Switchboard.Proofs.Attempt.Ringing
import Switchboard.Proofs.Service.HandedOn
import Switchboard.Proofs.Web.Manners
/-!
# Superseded attempts

An attempt is superseded where the flow of a call goes on to another one, and where the call is transferred.  Its legs may
still ring then.  A flow that goes on gives no order to the telephone provider at all, and a transfer ends the caller's call
and the legs that it has placed itself at most; so whoever supersedes an attempt hangs up none of its legs
(`superseded_legs_ring_on`).  The start of the next attempt takes them off the record, and nobody hangs them up later; a
transfer leaves them on the record of the segment that it closes.
-/
namespace Switchboard

open Provider (Request)
open Store (sameId)
open Manner (Makes)

/-! ## On the segment -/

namespace Segment

variable {s : Segment} {a : Act} {leg : String}

/-- **The start of an attempt leaves the legs of the one before to themselves**: whatever comes behind it, none is hung up
that is not registered anew. -/
theorem not_hungUp_behind_start (ha : a.isStart = true) (acts : List Act) (hnew : leg ∉ registrations acts) :
    leg ∉ (s.after a).hangUps acts := by
  have hcovered : (s.after a).Covered [] [] := fun l => by
    cases a with
    | start => exact Nat.le_refl 0
    | _ => cases ha
  exact ((run_covered acts (s.after a) [] [] hcovered).not_mem hnew).1

theorem isChange_startAttempt (resume : Resume) (targets : List DialTarget) (callerId : Option String) (timeout : Int)
    (record : Bool) : IsChange (startAttempt resume targets callerId timeout record) where
  revised _ _ := rfl
  overwriting _ := rfl

end Segment

/-- **An attempt that is prepared** is stored in place of the one before; the telephone provider is asked nothing. -/
theorem Work.run_prepareAttempt {st : State} {s : Segment} (h : st.store.Holds s) {sid : String}
    (hsid : Naming.root sid = s.rootSid) (resume : Resume) (targets : List DialTarget) (callerId : Option String)
    (timeout : Int) (record : Bool) (htakes : st.takes s (s.after (.start resume targets callerId timeout record))) :
    ∃ db k c, (prepareAttempt sid s.number resume targets callerId timeout record).run st =
        (.ok (some ((s.after (.start resume targets callerId timeout record)).revised k)),
          { st with store := db, conflicts := c }) ∧
      db.Holds ((s.after (.start resume targets callerId timeout record)).revised k) := by
  rcases mutate_cases (Segment.isChange_startAttempt resume targets callerId timeout record) h hsid with
    ⟨db, k, c, hrun, hdb, -⟩ | ⟨db, k, c, e, -, -, hno⟩
  · refine ⟨db, k, c, ?_, hdb⟩
    rw [prepareAttempt, Task.run_bind_ok hrun]
    rfl
  · exact absurd htakes hno

/-! ## On the state -/

/-- Whether a request ends a call or a leg with an id. -/
def Provider.Request.ends (sid : String) : Request → Bool
  | .terminate s _ => s = sid
  | _ => false

/-- Whether a leg was placed under an id. -/
def Provider.Request.places (sid : String) : Request → Bool
  | .place _ (some s) => s = sid
  | _ => false

/-- No call is stored under the id of a leg. -/
def Store.Uncalled (db : Store) (leg : String) : Prop := ∀ r ∈ db.calls, r.segment.rootSid ≠ leg

instance (db : Store) (leg : String) : Decidable (db.Uncalled leg) :=
  inferInstanceAs (Decidable (∀ r ∈ db.calls, r.segment.rootSid ≠ leg))

theorem Store.Uncalled.updateCalls {db : Store} {leg : String} (h : db.Uncalled leg) (p : CallRow → Bool)
    {g : CallRow → CallRow} (hg : ∀ r, (g r).segment.rootSid = r.segment.rootSid) :
    (db.updateCalls p g).Uncalled leg := by
  refine List.forall_mem_map.2 fun r hr => ?_
  split
  · rw [hg]
    exact h r hr
  · exact h r hr

namespace State

/-- How often the telephone provider was asked to end a call or a leg. -/
def terminations (st : State) (sid : String) : Nat := st.orders.countP (Request.ends sid)

/-- How often the telephone provider has given an id to a leg. -/
def placements (st : State) (sid : String) : Nat := st.orders.countP (Request.places sid)

/-- What others may do about a leg: they take back no placing of legs, and they open no call under its id. -/
def Beside (leg : String) (st st' : State) : Prop :=
  st.placements leg ≤ st'.placements leg ∧ (st.store.Uncalled leg → st'.store.Uncalled leg)

/-- A leg is not hung up, or its id was given to another one as well. -/
def Spares (leg : String) (st st' : State) : Prop :=
  st.placements leg ≤ st'.placements leg ∧ (st'.terminations leg = st.terminations leg ∨ 2 ≤ st'.placements leg)

variable {st st' : State} {leg : String}

theorem orders_note (st : State) (r : Request) :
    orders { st with requests := st.requests ++ [r] } = st.orders ++ [r].filter Request.isOrder := List.filter_append _ _

theorem placements_note (st : State) (r : Request) :
    placements { st with requests := st.requests ++ [r] } leg =
      st.placements leg + ([r].filter Request.isOrder).countP (Request.places leg) := by
  rw [placements, orders_note, List.countP_append]
  rfl

theorem terminations_note {r : Request} (h : r.ends leg = false) :
    terminations { st with requests := st.requests ++ [r] } leg = st.terminations leg := by
  have hnone : ([r].filter Request.isOrder).countP (Request.ends leg) = 0 := by
    refine List.countP_eq_zero.2 fun o ho => ?_
    rw [List.mem_singleton.1 (List.mem_filter.1 ho).1, h]
    exact Bool.false_ne_true
  rw [terminations, orders_note, List.countP_append, hnone]
  rfl

theorem Spares.of_orders (h : st'.orders = st.orders) : State.Spares leg st st' := by
  rw [Spares, placements, placements, terminations, terminations, h]
  exact ⟨Nat.le_refl _, .inl rfl⟩

theorem Spares.refl (st : State) : State.Spares leg st st := .of_orders rfl

theorem Spares.trans {st'' : State} (h : State.Spares leg st st') (h' : State.Spares leg st' st'') :
    State.Spares leg st st'' := by
  refine ⟨h.1.trans h'.1, ?_⟩
  rcases h'.2 with hsame | htwice
  · exact h.2.imp hsame.trans fun htwice => htwice.trans h'.1
  · exact .inr htwice

end State

/-! ## Manners that spare a leg -/

/-- The manner of work that gives the telephone provider no orders. -/
def quiet : Manner where
  rely _ _ := True
  guar st st' := st'.orders = st.orders
  inv _ := True
  lasts _ _ := trivial
  aside h := h.orders
  contends _ _ _ := rfl

/-- The manner of work that spares a leg whose id was given out so many times at least. -/
def sparing (leg : String) (times : Nat) : Manner where
  rely := State.Beside leg
  guar st st' := State.Spares leg st st' ∧ (st.store.Uncalled leg → st'.store.Uncalled leg)
  inv st := times ≤ st.placements leg ∧ st.store.Uncalled leg
  lasts h hstep := by
    rcases hstep with hstep | hstep
    · exact ⟨h.1.trans hstep.1, hstep.2 h.2⟩
    · exact ⟨h.1.trans hstep.1.1, hstep.2 h.2⟩
  aside h := by
    refine ⟨.of_orders h.orders, fun huncalled => ?_⟩
    rw [Store.Uncalled, h.calls]
    exact huncalled
  contends st _ _ := ⟨.of_orders rfl, fun h => h.updateCalls _ fun _ => rfl⟩

namespace Work

variable {leg : String} {times : Nat}

/-- **A write that leaves alone who rows are** spares a leg. -/
theorem sparing_updateCalls (st : State) (p : CallRow → Bool) {g : CallRow → CallRow}
    (hg : ∀ r, (g r).segment.rootSid = r.segment.rootSid) :
    (sparing leg times).guar st { st with store := st.store.updateCalls p g } :=
  ⟨.of_orders rfl, fun h => h.updateCalls p hg⟩

theorem sparing_writes (f : Segment → Segment) : (sparing leg times).Writes f := fun st _ =>
  sparing_updateCalls st _ fun _ => rfl

theorem sparing_updates : (sparing leg times).Updates := fun st _ changes _ =>
  sparing_updateCalls st _ fun r => congrArg Segment.Key.rootSid (CallRow.key_change changes r).1

theorem sparing_rooted : (sparing leg times).Rooted (· ≠ leg) := fun _ h => h.2

/-- **An order that does not end the leg** spares it. -/
theorem sparing_orders {r : Request} (h : r.ends leg = false) : (sparing leg times).Orders r := fun st _ => by
  refine ⟨⟨?_, .inl (State.terminations_note h)⟩, id⟩
  rw [State.placements_note]
  exact Nat.le_add_right _ _

/-- Behind a second leg with its id every order spares a leg. -/
theorem sparing_twice_orders (r : Request) : (sparing leg 2).Orders r := fun st h => by
  have hle : st.placements leg ≤ State.placements { st with requests := st.requests ++ [r] } leg := by
    rw [State.placements_note]
    exact Nat.le_add_right _ _
  exact ⟨⟨hle, .inr (h.1.trans hle)⟩, id⟩

/-- **A leg that is placed under the id of one that was placed** is a second one. -/
theorem upholds_note_place (l : Provider.Leg) (sid : String) {st : State} (hst : (sparing leg 1).inv st) :
    (note (.place l (some sid))).Upholds (State.terms (sparing leg 1).rely (sparing leg 1).guar)
      (fun _ st' => (sparing leg 1).inv st' ∧ (sid = leg → (sparing leg 2).inv st')) st := by
  have horders : (sparing leg 1).Orders (.place l (some sid)) := sparing_orders rfl
  have hguar := horders st hst
  refine Task.upholds_update.2 ⟨_, rfl, hguar, (sparing leg 1).lasts hst (.inr hguar), fun hsid => ⟨?_, hst.2⟩⟩
  subst hsid
  have hone : ([Request.place l (some sid)].filter Request.isOrder).countP (Request.places sid) = 1 :=
    List.countP_eq_length.2 (List.forall_mem_singleton.2 (decide_eq_true rfl))
  show 1 + 1 ≤ State.placements { st with requests := st.requests ++ [.place l (some sid)] } sid
  rw [State.placements_note, hone]
  exact Nat.succ_le_succ hst.1

theorem upholds_placeCall (l : Provider.Leg) {st : State} (hst : (sparing leg 1).inv st) :
    (placeCall l).Upholds (State.terms (sparing leg 1).rely (sparing leg 1).guar)
      (fun r st' => (sparing leg 1).inv st' ∧ (r = .ok (some leg) → (sparing leg 2).inv st')) st := by
  have hplaced (sid : String) {st' : State} (h : (sparing leg 1).inv st') : (do
      note (.place l (some sid))
      return some sid : Work (Option String)).Upholds (State.terms (sparing leg 1).rely (sparing leg 1).guar)
        (fun r st' => (sparing leg 1).inv st' ∧ (r = .ok (some leg) → (sparing leg 2).inv st')) st' :=
    Task.Upholds.bind (fun _ _ h => Task.upholds_pure.2 ⟨h.1, fun hr => h.2 (Option.some.inj (Except.ok.inj hr))⟩)
      (fun _ _ h => ⟨h.1, fun hr => nomatch hr⟩) (upholds_note_place l sid h)
  refine Task.upholds_look.2 ?_
  split
  · have hnote : (sparing leg 1).Makes (note (.place l none)) fun _ => True := Makes.note (sparing_orders rfl)
    refine Task.Upholds.bind (fun _ st' h => ?_) (fun _ _ h => ⟨h.2, fun hr => nomatch hr⟩) (hnote.upholds st hst)
    exact Task.upholds_pure.2 ⟨h.2, fun hr => nomatch hr⟩
  · have hcount : (sparing leg 1).Makes (Task.update fun s : State =>
        { s with exchange := { s.exchange with placed := s.exchange.placed + 1 } } : Work Unit) fun _ => True :=
      Makes.update fun _ _ => (sparing leg 1).aside ⟨rfl, rfl, rfl, rfl, rfl⟩
    exact Task.Upholds.bind (fun _ st' h => hplaced _ h.2) (fun _ _ h => ⟨h.2, fun hr => nomatch hr⟩)
      (hcount.upholds st hst)

/-- **A leg is placed for a target**, and ended at once where it comes late: this spares every other leg. -/
theorem sparing_placeLeg (s : Segment) (target : DialTarget) : (sparing leg 1).Makes (placeLeg s target) fun _ => True := by
  refine (Makes.tame tame_callbacks).bind fun _ _ => (Makes.tame tame_settings).bind fun _ _ => ⟨fun st hst => ?_⟩
  refine Task.Upholds.bind (fun sid st' h => ?_) (fun _ _ h => ⟨fun _ _ => trivial, h.1⟩) (upholds_placeCall _ hst)
  cases sid with
  | none => exact (Makes.pure trivial).upholds st' h.1
  | some sid =>
    -- a leg with the id of the one that is spared is a second one
    obtain ⟨n, hn, hinv, hends⟩ :
        ∃ n, 1 ≤ n ∧ (sparing leg n).inv st' ∧ ∀ done, (sparing leg n).Orders (.terminate sid done) := by
      by_cases hsid : sid = leg
      · subst hsid
        exact ⟨2, by decide, h.2 rfl, fun _ => sparing_twice_orders _⟩
      · exact ⟨1, Nat.le_refl 1, h.1, fun _ => sparing_orders (decide_eq_false hsid)⟩
    refine Task.Upholds.mono (fun _ _ h => ⟨h.1, hn.trans h.2.1, h.2.2⟩) (Makes.upholds (M := sparing leg n) ?_ st' hinv)
    refine (Makes.mutate (sparing_writes _) _ _ _).bind fun r _ => ?_
    dsimp only
    split
    · exact (Makes.terminateCall hends).discard.bind fun _ _ => .pure trivial
    · exact .pure trivial

theorem sparing_placeLegsFor (s : Segment) : ∀ targets : List DialTarget,
    (sparing leg 1).Makes (placeLegsFor s targets) fun _ => True
  | [] => .pure trivial
  | target :: rest =>
    (sparing_placeLeg s target).bind fun _ _ => (sparing_placeLegsFor s rest).bind fun _ _ => .pure trivial

/-- **A decision ends the call of the segment at most.** -/
theorem sparing_applyDecision? (d : Option Decision) (hd : ∀ d' ∈ d, d'.callSid ≠ leg) :
    (sparing leg times).Makes (applyDecision? d) fun _ => True := by
  cases d with
  | none => exact .pure trivial
  | some d =>
    have hends : Request.ends leg (.terminate d.callSid true) = false := decide_eq_false (hd d rfl)
    refine (Makes.tame tame_callbacks).bind fun _ _ => ?_
    split
    · exact (Makes.redirectCall fun _ => sparing_orders rfl).discard
    · exact (Makes.terminateCall fun _ => sparing_orders hends).discard

theorem sparing_finishDialing (sid : String) (number seq : Int) :
    (sparing leg times).Makes (finishDialing sid number seq) fun _ => True := by
  refine (Makes.tame tame_now).bind fun now _ => ?_
  refine (Makes.mutate_found sparing_rooted (sparing_writes _) _ _ _).bind fun r hr => ?_
  cases r with
  | none => exact .pure trivial
  | some p =>
    obtain ⟨t, ht, hp⟩ := hr p rfl
    refine sparing_applyDecision? p.2 fun d hd => ?_
    rw [hp] at hd
    rw [Segment.callSid_of_decision (s := t) (a := .finish seq now) d hd]
    exact ht

/-- **A transfer spares every leg that was placed before it.** -/
theorem sparing_connect (s : Segment) (hroot : s.rootSid ≠ leg) : (sparing leg 1).Makes (connect s) fun _ => True := by
  have hends : Request.ends leg (.terminate s.rootSid true) = false := decide_eq_false hroot
  refine (Makes.tame tame_callbacks).bind fun _ _ => ?_
  refine (Makes.redirectCall fun _ => sparing_orders rfl).discard.bind fun _ _ => ?_
  refine (sparing_placeLegsFor s _).bind fun placed _ => ?_
  split
  · refine (Makes.tame tame_now).bind fun _ _ => (Makes.updateCall sparing_updates _ rfl).discard.bind fun _ _ => ?_
    exact (Makes.terminateCall fun _ => sparing_orders hends).discard.bind fun _ _ => .fail _
  · exact sparing_finishDialing _ _ _

theorem sparing_transfer (sid toUser : String) (fromUser reason tenant : Option String) :
    (sparing leg 1).Makes (transfer sid toUser fromUser reason tenant) fun _ => True := by
  have hactive : (sparing leg 1).Makes (activeSegment? sid) fun s => ∀ t, s = some t → t.rootSid ≠ leg := by
    refine (Makes.newest? sparing_rooted sid none).bind fun s hs => ?_
    cases s with
    | some s => exact .pure hs
    | none =>
      refine (Makes.tame ((tame_query _).bind tame_readRow?)).bind fun s _ => ?_
      cases s with
      | none => exact .pure fun t ht => nomatch ht
      | some s => exact Makes.newest? sparing_rooted s.rootSid none
  have hover (active : Segment) (h : Store.Handover) (scratch : Scratch) (hroot : active.rootSid ≠ leg) :
      (sparing leg 1).Makes (handOver active h scratch) fun p => p.2.rootSid ≠ leg := by
    refine .handOver (A := (· ≠ leg)) hroot fun st rows db now _ hok => ⟨.of_orders rfl, fun hst a ha => ?_⟩
    obtain ⟨r, s, -, -, -, -, -, hinsert⟩ := Store.handOver_eq_ok hok
    obtain ⟨-, hrow, hstore⟩ := Store.insertCall_eq_ok hinsert
    rw [hstore] at ha
    rcases List.mem_append.1 ha with ha | ha
    · exact hst.updateCalls _ (fun b => congrArg Segment.Key.rootSid (CallRow.key_change _ b).1) a ha
    · rw [List.mem_singleton.1 ha, hrow]
      exact hroot
  exact .transfer (A := (· ≠ leg)) hactive (fun active h scratch hroot _ => hover active h scratch hroot) sparing_connect

end Work

/-! ## Requests -/

theorem quiet_mutates : quiet.Mutates := Manner.mutates_of_writes fun _ _ _ => rfl

theorem quiet_opens (c : Work.NewCall) : quiet.Opens c := fun _ _ _ _ _ _ => rfl

/-- A request by which an attempt may be superseded: a call comes in, its flow goes on, or the call is transferred. -/
inductive Web.Request.Supersedes (r : Web.Request) : Prop where
  | incoming {tenant line : String} (hroute : Web.Route.find r.method r.path = .ok (.hook (.incoming tenant line)))
  | continued {tenant line : String} (hroute : Web.Route.find r.method r.path = .ok (.hook (.flow tenant line)))
      (haction : r.parameters.given "action" ≠ some "round_robin")
  | transferred {tenant sid : String} (hroute : Web.Route.find r.method r.path = .ok (.managed tenant (.transfer sid)))

namespace Manner.Makes

variable {M : Manner} {r : Web.Request}

theorem serveHook {h : Web.Hook String} {h' : Web.Hook Int} (hcheck : h.check Web.segmentNumber = .ok h')
    (hrun : M.Makes (h'.run ⟨r.parameters, r.form⟩) fun _ => True) : M.Makes (Web.serveHook r h) fun _ => True := by
  refine (tame Work.tame_settings).bind fun settings _ => passing fun _ => ?_
  rw [hcheck]
  exact limited hrun

theorem serveTransfer (tenant sid : String)
    (h : ∀ toUser fromUser reason, M.Makes (Work.transfer sid toUser fromUser reason (some tenant)) fun _ => True) :
    M.Makes (Web.serveManaged r tenant (.transfer sid)) fun _ => True := by
  refine passing fun p => look fun _ => passing fun party => ?_
  have hcommand : (Web.Managed.transfer sid).command r.parameters p =
      (Web.posted Web.transferOf p).map fun t => .transfer sid t.1 t.2 := rfl
  rw [hcommand]
  cases Web.posted Web.transferOf p with
  | bad issues => exact pure trivial
  | ok t =>
    have htransfer : M.Makes ((Web.Command.transfer sid t.1 t.2).run tenant party) fun _ => True :=
      (h t.1 party.member? t.2).bind fun _ _ => pure trivial
    exact limited (htransfer.recover (fun _ _ => trivial) fun _ => pure trivial)

end Manner.Makes

/-- **Whoever supersedes an attempt spares the legs that were placed before**, whatever others do meanwhile. -/
theorem Web.Request.Supersedes.upholds {r : Web.Request} (h : r.Supersedes) {leg : String} {st : State}
    (hplaced : 1 ≤ st.placements leg) (huncalled : st.store.Uncalled leg) :
    (Web.serve r).Upholds (State.terms (State.Beside leg) (State.Spares leg)) (fun _ _ => True) st := by
  have hquiet (hserve : quiet.Makes (Web.serve r) fun _ => True) :
      (Web.serve r).Upholds (State.terms (State.Beside leg) (State.Spares leg)) (fun _ _ => True) st :=
    Task.Upholds.mono (fun _ _ _ => trivial)
      ((hserve.upholds st trivial).of_terms (fun _ _ _ => trivial) fun _ _ => State.Spares.of_orders)
  cases h with
  | incoming hroute =>
    refine hquiet ?_
    unfold Web.serve
    rw [hroute]
    refine Makes.serveHook rfl ((Makes.orElse ?_).bind fun _ _ => .pure trivial)
    exact Makes.incoming quiet_mutates (quiet_opens _)
  | continued hroute haction =>
    refine hquiet ?_
    unfold Web.serve
    rw [hroute]
    refine Makes.serveHook rfl ((Makes.orElse ?_).bind fun _ _ => .pure trivial)
    exact Makes.continueFlow quiet_mutates fun hdial => absurd hdial haction
  | @transferred tenant sid hroute =>
    have hserve : (sparing leg 1).Makes (Web.serve r) fun _ => True := by
      unfold Web.serve
      rw [hroute]
      exact Makes.serveTransfer tenant sid fun _ _ _ => Work.sparing_transfer _ _ _ _ _
    exact Task.Upholds.mono (fun _ _ _ => trivial)
      ((hserve.upholds st ⟨hplaced, huncalled⟩).of_terms (fun _ _ h => h) fun _ _ h => h.1)

theorem Web.Request.Supersedes.run {r : Web.Request} (h : r.Supersedes) {leg : String} {st : State}
    (hplaced : 1 ≤ st.placements leg) (huncalled : st.store.Uncalled leg) :
    State.Spares leg st ((Web.serve r).run st).2 := by
  obtain ⟨st', hst', hpath, -⟩ :=
    (h.upholds hplaced huncalled).run (c := State.terms (State.Beside leg) (State.Spares leg)) fun _ => ⟨Nat.le_refl _, id⟩
  change st' = ((Web.serve r).run st).2 at hst'
  rw [← hst']
  clear hst'
  induction hpath with
  | refl => exact .refl st
  | tail _ hstep ih => exact ih.trans hstep

/-- What it means for a leg that it rings on where the attempt is superseded. -/
structure RingsOn (s : Segment) (leg : String) : Prop where
  /-- Of all acts exactly the start of an attempt takes the leg off the record although nobody hangs it up. -/
  dropped : ∀ a : Segment.Act, s.Dropped a leg ↔ a.isStart = true
  /-- Nobody does so later. -/
  forgotten : ∀ a : Segment.Act, a.isStart = true → ∀ acts, leg ∉ Segment.registrations acts →
    leg ∉ (s.after a).hangUps acts
  /-- An attempt that is prepared is stored, and the telephone provider is asked nothing. -/
  prepared : ∀ (st : State) (sid : String), st.store.Holds s → Naming.root sid = s.rootSid →
    ∀ resume targets callerId timeout record, st.takes s (s.after (.start resume targets callerId timeout record)) →
      ∃ t st', (Work.prepareAttempt sid s.number resume targets callerId timeout record).run st = (.ok (some t), st') ∧
        st'.store.Holds t ∧ t.scratch.pendingLegs = [] ∧ st'.requests = st.requests
  /-- The segment that a transfer closes keeps the leg on its record. -/
  kept : ∀ (db db' : Store) (active : Segment) (h : Store.Handover) (scratch : Scratch) (now : Time.Instant) rows,
    db.Identified → db.Holds s → active.id = s.id → db.handOver active h scratch now = .ok (rows, db') →
      ∃ t, db'.Holds t ∧ t.status = .transferred ∧ leg ∈ t.scratch.pendingLegs
  /-- Whoever serves a request that supersedes an attempt spares the leg, alone and whatever others do meanwhile. -/
  spared : ∀ (st : State) (r : Web.Request), r.Supersedes → 1 ≤ st.placements leg → st.store.Uncalled leg →
    State.Spares leg st ((Web.serve r).run st).2 ∧
      (Web.serve r).Upholds (State.terms (State.Beside leg) (State.Spares leg)) (fun _ _ => True) st

/-- **Superseding an attempt hangs up none of its legs.**  A leg that rings for an attempt rings on when the attempt is
superseded.  Where the flow goes on it is taken off the record and nobody ends it, then or later; a transfer leaves it on
the record of the segment that it closes. -/
theorem superseded_legs_ring_on {s : Segment} {leg : String} (hrings : leg ∈ s.scratch.pendingLegs) : RingsOn s leg where
  dropped _ := Segment.dropped_iff_start hrings
  forgotten _ ha acts hnew := Segment.not_hungUp_behind_start ha acts hnew
  prepared st sid hst hsid resume targets callerId timeout record htakes := by
    obtain ⟨db, k, c, hrun, hdb⟩ := Work.run_prepareAttempt hst hsid resume targets callerId timeout record htakes
    exact ⟨_, _, hrun, hdb, rfl, rfl⟩
  kept db _ _ h _ now _ hidentified hs hid hok :=
    ⟨s.handedOver h now, (hs.handOver hid (hidentified.fresh db.counted (Nat.le_refl _)) hok).2, rfl, hrings⟩
  spared _ _ h hplaced huncalled := ⟨h.run hplaced huncalled, h.upholds hplaced huncalled⟩

/-- The flow of a call is asked for once more while a leg rings: the leg is off the record, and nobody ended it. -/
theorem leg_rings_on_behind_a_replay :
    let target : DialTarget := ⟨.phone, "+15550100", "+15550100", none⟩
    let s := (Segment.opened "T" "CA1" "CA1" 0 "inbound" .ringing).run
      [.start { Resume.none with destinationCount := 1 } [target] none 30 true, .callerJoins (some 1) none,
        .register 1 "CAleg1" target, .finish 1 0]
    let dial : Json :=
      .arr [.obj [("id", .str "d"), ("type", .str "dial"), ("config", .obj [("destination", .str "+15557654321")])]]
    let st := { State.holding [s] with
      store := { (State.holding [s]).store with
        flows := [⟨"F", "T", "Main", none, true, false, .ok dial, .utc 0, .utc 0⟩]
        lines := [⟨"L", "T", "+15550199", none, true, true, some "F"⟩] }
      settings := { (State.holding []).settings with authToken := "secret" }
      requests := [.place (Work.legFor (.ofBase "") "" s target) (some "CAleg1")] }
    let replay : Web.Request := ⟨.post, "/voice/flow/T/L", "step=0",
      [("host", "localhost"), ("content-type", "application/x-www-form-urlencoded")], "CallSid=CA1"⟩
    let st' := ((Web.serve replay).run st).2
    "CAleg1" ∈ s.scratch.pendingLegs ∧ RingsOn s "CAleg1" ∧ st'.terminations "CAleg1" = 0 ∧
      ∀ row ∈ st'.store.calls, row.read.toOption.map (fun t => (t.scratch.attemptSeq, t.scratch.pendingLegs)) =
        some (2, []) := by
  intro target s dial st replay st'
  have hrings : "CAleg1" ∈ s.scratch.pendingLegs := by decide
  have hringsOn : RingsOn s "CAleg1" := superseded_legs_ring_on hrings
  have hroute : Web.Route.find .post "/voice/flow/T/L" = .ok (.hook (.flow "T" "L")) := rfl
  have hspared := (hringsOn.spared st replay (.continued hroute (by decide +kernel)) (by decide) (by decide)).1
  have honce : st'.placements "CAleg1" = 1 := by decide +kernel
  refine ⟨hrings, hringsOn, hspared.2.resolve_right ?_, by decide +kernel⟩
  show ¬ 2 ≤ st'.placements "CAleg1"
  omega

end Switchboard
