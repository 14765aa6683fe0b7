import Switchboard.Proofs.Attempt.Attribution
import Switchboard.Proofs.Service.Alike
import Switchboard.Proofs.Web.DialedOnce
import Switchboard.Proofs.Web.Loops
/-!
# Round robins

A step that dials its destinations one after another is asked for once for each attempt: first when a run of the flow comes
to it, and then at the address that is decided on when the attempt before has failed.  Whenever it is asked for from a
destination on it tries the first one from there that leads somewhere, and passes on where none does
(`Rota.run_of_reachable`, `Rota.run_of_unreachable`); the address behind a failed attempt asks for it from the next
destination on, and leads behind the step where there is none (`Rota.decisionAddress_of_opened`).  So over a whole run each
destination that leads somewhere is tried once, in order (`round_robin_tries_each_destination_once`).

All this is about the first segment of a call.  Behind a transfer a failed attempt ends the call, whatever destinations are
left.
-/
namespace Switchboard

open Segment (Act Deed)
open Web (Event continueFlow lineOf)
open Work (Place)

/-! ## Destinations that lead somewhere -/

namespace Work

variable {leads : String → Option DialTarget} {tenant : String} {st : State}

/-- The destinations that lead somewhere, each with its index; the first one has a given index. -/
def resolvable (leads : String → Option DialTarget) (first : Nat) (ds : List String) : List (Nat × DialTarget) :=
  (ds.zipIdx first).filterMap fun d => (leads d.1).map fun t => (d.2, t)

theorem resolvable_cons (leads : String → Option DialTarget) (first : Nat) (d : String) (ds : List String) :
    resolvable leads first (d :: ds) =
      ((leads d).map fun t => (first, t)).toList ++ resolvable leads (first + 1) ds := by
  unfold resolvable
  rw [List.zipIdx_cons, List.filterMap_cons]
  cases leads d <;> rfl

/-- **Each destination that leads somewhere is there once**, in order. -/
theorem map_snd_resolvable : ∀ (first : Nat) (ds : List String),
    (resolvable leads first ds).map Prod.snd = ds.filterMap leads
  | _, [] => rfl
  | first, d :: ds => by
    rw [resolvable_cons, List.map_append, map_snd_resolvable (first + 1) ds, List.filterMap_cons]
    cases leads d <;> rfl

theorem mem_resolvable {first i : Nat} {t : DialTarget} {ds : List String} (h : (i, t) ∈ resolvable leads first ds) :
    first ≤ i ∧ ∃ d, ds[i - first]? = some d ∧ leads d = some t := by
  obtain ⟨⟨d, j⟩, hd, ht⟩ := List.mem_filterMap.1 h
  obtain ⟨t', ht', hpair⟩ := Option.map_eq_some_iff.1 ht
  cases hpair
  obtain ⟨hle, -, hget⟩ := List.mem_zipIdx hd
  refine ⟨hle, d, ?_, ht'⟩
  rw [hget]
  exact List.getElem?_eq_getElem _

theorem pairwise_resolvable (leads : String → Option DialTarget) (first : Nat) (ds : List String) :
    ((resolvable leads first ds).map Prod.fst).Pairwise (· < ·) := by
  induction ds generalizing first with
  | nil => exact .nil
  | cons d ds ih =>
    rw [resolvable_cons, List.map_append]
    cases leads d with
    | none => exact ih (first + 1)
    | some t =>
      refine List.pairwise_cons.2 ⟨fun j hj => ?_, ih (first + 1)⟩
      obtain ⟨⟨j, u⟩, hmem, rfl⟩ := List.mem_map.1 hj
      exact (mem_resolvable hmem).1

/-- **Behind the first destination that leads somewhere** come those behind it that do. -/
theorem resolvable_behind {i : Nat} {t : DialTarget} {rest : List (Nat × DialTarget)} : ∀ {first : Nat} {ds : List String},
    resolvable leads first ds = (i, t) :: rest → rest = resolvable leads (i + 1) (ds.drop (i + 1 - first))
  | _, [], h => by cases h
  | first, d :: ds, h => by
    rw [resolvable_cons] at h
    cases hd : leads d with
    | some u =>
      rw [hd] at h
      obtain ⟨hpair, hrest⟩ := List.cons.inj h
      cases hpair
      rw [Nat.add_sub_cancel_left]
      exact hrest.symm
    | none =>
      rw [hd] at h
      have hbehind : resolvable leads (first + 1) ds = (i, t) :: rest := h
      have hle := (mem_resolvable (hbehind ▸ List.mem_cons_self)).1
      rw [resolvable_behind hbehind, show i + 1 - first = i + 1 - (first + 1) + 1 by omega, List.drop_succ_cons]

/-- **The first destination that leads somewhere** is found, where looking destinations up changes nothing. -/
theorem run_firstResolved : ∀ (ds : List String) (first : Nat),
    (∀ d ∈ ds, (resolve? tenant d).run st = (.ok (leads d), st)) →
      (firstResolved tenant first ds).run st = (.ok ((resolvable leads first ds).head?.map fun x => ((x.1 : Int), x.2)), st)
  | [], _, _ => rfl
  | d :: ds, first, h => by
    rw [firstResolved, Task.run_bind_ok (h d List.mem_cons_self), resolvable_cons]
    cases leads d with
    | some t => rfl
    | none => exact run_firstResolved ds (first + 1) fun d' hd' => h d' (List.mem_cons_of_mem _ hd')

theorem exists_run_resolve? {ds : List String}
    (h : ∀ d ∈ ds, (((resolve? tenant d).run st).1.toOption.bind id).isSome = true) :
    ∀ d ∈ ds, ∃ t, (resolve? tenant d).run st = (.ok (some t), st) := by
  intro d hd
  obtain ⟨t, ht⟩ := Option.isSome_iff_exists.1 (h d hd)
  obtain ⟨found, hfound, rfl⟩ := Option.bind_eq_some_iff.1 ht
  exact ⟨t, Prod.ext (Flow.toOption_eq_some.1 hfound) (run_resolve?_kept _ _ _)⟩

/-- The attempt that a round robin makes to reach a destination. -/
def Attempt.ofRoundRobin (c : CallContext) (d : Flow.RoundRobin) (i : Nat) (t : DialTarget) : Attempt :=
  ⟨.roundRobin, [t], i, d.destinations.length, d.timeoutPerDestination, d.callerId, c.recordCalls⟩

/-- **A round robin tries the first destination from an index on that leads somewhere**, if one does. -/
theorem run_runRoundRobin {c : CallContext} {d : Flow.RoundRobin}
    (h : ∀ x ∈ d.destinations, (resolve? c.tenantId x).run st = (.ok (leads x), st)) (step : Nat) (branch : Option String)
    (k : Nat) : (runRoundRobin c d step branch k).run st = match resolvable leads k (d.destinations.drop k) with
      | [] => (.ok .notAvailable, st)
      | (i, t) :: _ => (bridge c (.ofRoundRobin c d i t) step branch).run st := by
  have hfrom : destinationsFrom d.destinations k = some (d.destinations.drop k) := if_pos (Int.natCast_nonneg k)
  unfold runRoundRobin
  rw [hfrom]
  dsimp only
  rw [Task.run_bind_ok (run_firstResolved _ k fun x hx => h x (List.mem_of_mem_drop hx))]
  cases resolvable leads k (d.destinations.drop k) <;> rfl

end Work

/-! ## The step -/

/-- **A branch without a name** is left out of an address, as no branch is. -/
theorem Work.Place.flow_position (urls : Callbacks) (tenant line : String) (p : Place) (k : Continuation)
    {branch : Option String} (h : Flow.given branch = Flow.given p.branch) :
    urls.flow tenant line (({ p with branch } : Place).position k) = urls.flow tenant line (p.position k) := by
  cases k <;> exact Callbacks.flow_congr h ..

/-- **Where the dial of an open attempt ends unanswered** the attempt has failed. -/
theorem Segment.decision_of_dialEnds {s : Segment} (hleg : s.scratch.answeredLeg = none)
    (hopen : s.scratch.failureHandled = false) (now : Time.Instant) :
    (s.effect (.dialEnds none now)).decision = some s.decisionAfterFailure := by
  have hexhausted : { s.scratch with pendingLegs := [], dialComplete := true }.isExhausted = true :=
    (isExhausted_iff _).2 ⟨rfl, rfl, hleg⟩
  show (s.claimAfterDial none now).2.2 = _
  unfold claimAfterDial
  rw [if_neg (show ¬ s.scratch.isOther none = true from Bool.false_ne_true), hleg, hopen,
    if_neg (by exact Bool.false_ne_true)]
  refine (claimFailure_decision _ now).trans (if_neg ?_)
  show ¬ (s.scratch.failureHandled || !{ s.scratch with pendingLegs := [], dialComplete := true }.isExhausted) = true
  rw [hopen, hexhausted]
  exact Bool.false_ne_true

/-- **Behind a failed attempt of a round robin** on a first segment the caller is sent to the next destination, and behind
the step where there is none. -/
theorem Segment.decisionAddress_of_roundRobin {s : Segment} (hnumber : s.number = 0) {p : Place} {flow : Option String}
    {line : String} {attempt : Int} {destinations : Nat}
    (h : s.scratch.resume = p.token flow line attempt .roundRobin destinations) (urls : Callbacks) :
    Work.decisionAddress urls s.decisionAfterFailure = some (urls.flow s.tenantId line (p.position
      (if attempt + 1 < destinations then .retry (attempt + 1) else .next))) := by
  have hfirst : ¬ s.isTransfer = true := by
    rw [isTransfer, hnumber]
    decide
  have hmove : s.moveAfterFailure =
      if attempt + 1 < destinations then .retry line p.index p.branch (attempt + 1) else .advance line p.index p.branch := by
    unfold moveAfterFailure
    rw [if_neg hfirst, h]
    by_cases hnext : attempt + 1 < destinations
    · exact (if_pos ⟨rfl, hnext⟩).trans (if_pos hnext).symm
    · exact (if_neg fun hboth => hnext hboth.2).trans (if_neg hnext).symm
  unfold Work.decisionAddress decisionAfterFailure
  rw [hmove]
  by_cases hnext : attempt + 1 < destinations
  · rw [if_pos hnext, if_pos hnext]
    rfl
  · rw [if_neg hnext, if_neg hnext]
    rfl

namespace Segment

/-- **An attempt goes on as what it is** until the next one is started: with its number, and with whom it dials. -/
theorem attempt_did (s : Segment) {d : Deed} (hd : d.isStart = false) :
    (s.did d).scratch.attemptSeq = s.scratch.attemptSeq ∧ (s.did d).scratch.targets = s.scratch.targets := by
  by_cases hact : ∃ a, d = .act a
  · obtain ⟨a, rfl⟩ := hact
    exact ⟨after_attemptSeq s a hd, after_targets hd⟩
  · obtain ⟨entered, hscratch⟩ := scratch_did (s := s) fun a h => hact ⟨a, h⟩
    rw [hscratch]
    exact ⟨rfl, rfl⟩

theorem attempt_lived : ∀ (ds : List Deed) (s : Segment), (∀ d ∈ ds, d.isStart = false) →
    (s.lived ds).scratch.attemptSeq = s.scratch.attemptSeq ∧ (s.lived ds).scratch.targets = s.scratch.targets
  | [], _, _ => ⟨rfl, rfl⟩
  | d :: ds, s, h => by
    obtain ⟨hseq, htargets⟩ := attempt_lived ds (s.did d) fun d' hd' => h d' (List.mem_cons_of_mem _ hd')
    obtain ⟨hseq', htargets'⟩ := attempt_did s (h d List.mem_cons_self)
    exact ⟨hseq.trans hseq', htargets.trans htargets'⟩

theorem number_lived : ∀ (ds : List Deed) (s : Segment), (s.lived ds).number = s.number
  | [], _ => rfl
  | d :: ds, s => (number_lived ds (s.did d)).trans (congrArg number (overwriting_did s d)).symm

end Segment

/-- A step of a caller's flow that dials its destinations one after another, and where each destination leads. -/
structure Rota (who : Caller) where
  place : Place
  step : Flow.RoundRobin
  leads : String → Option DialTarget
  stands : place.Stands (Flow.Leading who.flow)
  body : place.step.body = .roundRobin step

/-- An event is one of a caller's call at an address of the service. -/
def Caller.AsksAt (who : Caller) (e : Event) (url : String) : Prop :=
  e.sid = who.sid ∧ ∃ query, url = who.urls.base ++ who.path false ++ "?" ++ query ∧
    e.address = Text.Percent.fields query

/-- How a run comes to be at a step. -/
inductive Arrival where
  /-- It comes there in its list. -/
  | comes (c : CallContext) (mode : Mode)
  /-- The caller is sent there. -/
  | sent (e : Event)

namespace Rota

variable {who : Caller} (R : Rota who)

/-- The destinations from an index on that lead somewhere. -/
def reachable (k : Nat) : List (Nat × DialTarget) := Work.resolvable R.leads k (R.step.destinations.drop k)

/-- Where the caller is sent to go on from the step. -/
def address (k : Continuation) : String := who.urls.flow who.tenant who.line (R.place.position k)

/-- What is given when a run comes to be at the step. -/
def served : Arrival → Work Response
  | .comes c mode =>
    Rendering.verbs <$> Work.runFrom c mode R.place.branch R.place.index (some 0) (R.place.list.drop R.place.index)
  | .sent e => continueFlow who.tenant who.line e

/-- How a run goes on behind the step: at the address of the next one, or in the same response where it does so in its
list. -/
def behind : Arrival → Work Response
  | .comes c .inline =>
    Rendering.verbs <$> Work.runFrom c .inline R.place.branch (R.place.index + 1) (some 0)
      (R.place.list.drop (R.place.index + 1))
  | _ => return .redirect (R.address .next)

/-- A run is at the step for its destinations from an index on. -/
inductive AsksFrom : Arrival → Nat → Prop
  | comes {c : CallContext} {mode : Mode} (hc : who.About c) : AsksFrom (.comes c mode) 0
  | sent {e : Event} {k : Nat} (hk : k < R.step.destinations.length) (he : who.AsksAt e (R.address (.retry k))) :
    AsksFrom (.sent e) k

/-- A state in which the step is served: the call is not handed on, its line runs the flow, each destination leads where it
does, and the database takes what is written. -/
structure Ready (st : State) : Prop where
  setting : who.Setting st
  line : ∃ l, (lineOf who.tenant who.line).run st = (.ok (some l), st) ∧ (Flow.given l.flowId).isSome = true
  newest : ∃ s, (Work.latest? who.sid (some who.tenant)).run st = (.ok (some s), st) ∧ who.Has st s ∧
    s.scratch.agentDialedFromTransfer = false
  leads : ∀ d ∈ R.step.destinations, (Work.resolve? who.tenant d).run st = (.ok (R.leads d), st)
  up : st.isUp = true
  few : st.conflicts < Work.mutateTries

/-- The attempt to reach a destination was opened on a segment. -/
structure Opened (i : Nat) (t : DialTarget) (s : Segment) : Prop where
  resume : ∃ flow branch, Flow.given branch = Flow.given R.place.branch ∧ s.scratch.resume =
    ({ R.place with branch } : Place).token flow who.line i .roundRobin R.step.destinations.length
  targets : s.scratch.targets = [t]
  undialed : s.dialing = (false, false)
  unanswered : s.scratch.answeredLeg = none ∧ s.scratch.failureHandled = false
  number : s.number = 0
  tenant : s.tenantId = who.tenant

theorem list_eq : ∃ id label, R.place.list.drop R.place.index =
    ⟨id, label, .roundRobin R.step⟩ :: R.place.list.drop (R.place.index + 1) := by
  obtain ⟨hindex, hget⟩ := List.getElem?_eq_some_iff.1 R.stands.2
  have hbody := R.body
  rw [List.drop_eq_getElem_cons hindex, hget]
  cases hstep : R.place.step with
  | mk id label body =>
    rw [hstep] at hbody
    exact ⟨id, label, congrArg (fun b => (⟨id, label, b⟩ : Flow.Step) :: R.place.list.drop (R.place.index + 1)) hbody⟩

variable {R} {c : CallContext} {st : State} {k : Nat}

/-- **A state that the service comes to is ready** where what is looked up there is found. -/
theorem Ready.of_proceeds {st₀ : State} (hnone : st₀.store.calls = []) (h : Relation.ReflTransGen State.Proceeds st₀ st)
    (hsetting : who.Setting st)
    (hline : (((lineOf who.tenant who.line).run st).1.toOption.bind id).any (fun l => (Flow.given l.flowId).isSome) = true)
    (hnewest : (((Work.latest? who.sid (some who.tenant)).run st).1.toOption.bind id).any
      (fun s => !s.scratch.agentDialedFromTransfer) = true)
    (hleads : ∀ d ∈ R.step.destinations, ((Work.resolve? who.tenant d).run st).1.toOption = some (R.leads d))
    (hup : st.isUp = true) (hfew : st.conflicts < Work.mutateTries) : R.Ready st := by
  refine ⟨hsetting, ?_, ?_, fun d hd => ?_, hup, hfew⟩
  · obtain ⟨l, hl, hflow⟩ := (Option.any_eq_true _ _).1 hline
    obtain ⟨found, hfound, rfl⟩ := Option.bind_eq_some_iff.1 hl
    exact ⟨l, Prod.ext (Flow.toOption_eq_some.1 hfound) (Web.run_lineOf_kept _ _ _), hflow⟩
  · obtain ⟨s, hs, hflag⟩ := (Option.any_eq_true _ _).1 hnewest
    obtain ⟨found, hfound, rfl⟩ := Option.bind_eq_some_iff.1 hs
    have hrun : (Work.latest? who.sid (some who.tenant)).run st =
        (.ok (some s), ((Work.latest? who.sid (some who.tenant)).run st).2) :=
      Prod.ext (Flow.toOption_eq_some.1 hfound) rfl
    obtain ⟨hkept, hs⟩ := hsetting.has_of_latest (State.chained_of_proceeds hnone h)
      (Naming.root_of_unmarked who.unmarked) hrun
    rw [hkept] at hrun
    exact ⟨s, hrun, hs, by simpa using hflag⟩
  · exact Prod.ext (Flow.toOption_eq_some.1 (hleads d hd)) (Work.run_resolve?_kept _ _ _)

/-- **Where no destination leads anywhere** the step is passed on. -/
theorem runFrom_of_unreachable (mode : Mode) (branch : Option String) (hst : R.Ready st) (hc : who.About c)
    (hk : R.reachable k = []) :
    (Work.runFrom c mode branch R.place.index (some k) (R.place.list.drop R.place.index)).run st =
      match mode with
      | .redirect => (.ok (Outcome.notAvailable.rendering ++
          .ofVerbs [Work.goTo who.urls c (R.place.index + 1) branch]), st)
      | .inline => ((Outcome.notAvailable.rendering ++ ·) <$> Work.runFrom c .inline branch (R.place.index + 1) (some 0)
          (R.place.list.drop (R.place.index + 1))).run st := by
  have hbody : (Work.skipFailed (Work.runBody c branch R.place.index (some k) (.roundRobin R.step))).run st =
      (.ok .notAvailable, st) := by
    have hrun := Work.run_runRoundRobin (hc.tenant ▸ hst.leads) R.place.index branch k
    rw [show Work.resolvable R.leads k (R.step.destinations.drop k) = [] from hk] at hrun
    rw [Work.skipFailed, Task.run_recover, Work.runBody, hrun]
  obtain ⟨id, label, hlist⟩ := R.list_eq
  rw [hlist, Work.runFrom, Task.run_bind_ok hbody]
  cases mode with
  | redirect =>
    dsimp only [Outcome.notAvailable, Outcome.advance]
    rw [Task.run_bind_ok (Work.run_callbacks st), hst.setting.urls]
    rfl
  | inline => rfl

/-- **Where a destination leads somewhere** the first one that does is tried. -/
theorem runFrom_of_reachable (mode : Mode) {branch : Option String} (hst : R.Ready st) (hc : who.About c)
    (hbranch : Flow.given branch = Flow.given R.place.branch) {i : Nat} {t : DialTarget} {rest : List (Nat × DialTarget)}
    (hk : R.reachable k = (i, t) :: rest) :
    ∃ b st' s, (Work.runFrom c mode branch R.place.index (some k) (R.place.list.drop R.place.index)).run st =
      (.ok (.ofVerbs [.bridge b]), st') ∧ who.Has st' s ∧ R.Opened i t s := by
  obtain ⟨s, -, hs, hflag⟩ := hst.newest
  obtain ⟨callerId, db, rev, n, b, hdb, hbridge, -⟩ := Work.run_bridge_starts hs.stored (hc.sid.trans hs.sid.symm)
    (hc.segment.trans hs.number.symm) hst.up hst.few (.ofRoundRobin c R.step i t) R.place.index branch
  have hbody : (Work.skipFailed (Work.runBody c branch R.place.index (some k) (.roundRobin R.step))).run st =
      (.ok (.stop [.bridge b]), { st with store := db, conflicts := n }) := by
    have hrun := Work.run_runRoundRobin (hc.tenant ▸ hst.leads) R.place.index branch k
    rw [show Work.resolvable R.leads k (R.step.destinations.drop k) = (i, t) :: rest from hk] at hrun
    rw [Work.skipFailed, Task.run_recover, Work.runBody, hrun]
    dsimp only
    rw [hbridge]
  refine ⟨b, { st with store := db, conflicts := n }, _, ?_, ⟨hdb, hs.sid, hs.number, hs.tenant⟩,
    ⟨c.flowId, branch, hbranch, ?_⟩, rfl, ?_, ⟨rfl, rfl⟩, hs.number, hs.tenant⟩
  · obtain ⟨id, label, hlist⟩ := R.list_eq
    rw [hlist, Work.runFrom, Task.run_bind_ok hbody]
    rfl
  · rw [← hc.line]
    rfl
  · exact Prod.ext rfl hflag

/-- **An address of the step tells for which destination it is asked.** -/
theorem fields_of_asksAt {e : Event} {p : Place} {k : Continuation}
    (he : who.AsksAt e (who.urls.flow who.tenant who.line (p.position k))) :
    e.address = Text.Percent.fields (p.position k).query := by
  obtain ⟨-, query, hurl, hquery⟩ := he
  rw [Callbacks.flow_eq] at hurl
  have hpath : who.urls.base ++ who.path false ++ "?" ++ query =
      who.urls.base ++ who.path false ++ "?" ++ (p.position k).query := by
    rw [← hurl, who.path_eq, if_neg Bool.false_ne_true, String.append_empty]
  rw [hquery, (who.path_inj hpath).2]

/-- **What the caller is sent to** is the step, from a destination on. -/
theorem run_sent (hroot : Flow.Addressable who.flow) (hst : R.Ready st) {e : Event}
    (hk : k < R.step.destinations.length) (he : who.AsksAt e (R.address (.retry k))) :
    ∃ c, who.About c ∧ (continueFlow who.tenant who.line e).run st =
      (Rendering.verbs <$> Work.runFrom c .redirect (Flow.given R.place.branch) R.place.index (some k)
        (R.place.list.drop R.place.index)).run st := by
  obtain ⟨l, hline, hflow⟩ := hst.line
  obtain ⟨s, hlatest, hs, -⟩ := hst.newest
  obtain ⟨htenant, hid, hsteps, -⟩ := hst.setting.line_of_run (decide_eq_true rfl) hline (Option.isNone_eq_false_iff.2 hflow)
  have haddress := fields_of_asksAt he
  have haction : e.address.given "action" ≠ some "round_robin" := by
    rw [Web.given_action haddress]
    simp [Place.position, Flow.given]
  have hread : Text.int? (toString (k : Int)) = some (k : Int) := by
    have hx : R.place.step ∈ Flow.flat who.flow :=
      (Flow.sublist_of_resolve R.stands.1).subset (List.mem_of_getElem? R.stands.2)
    exact Text.int?_toString ((hroot.destinations _ hx _ R.body).of_le (by omega))
  refine ⟨Web.contextFor l e (some s), hs.about htenant hid e, ?_⟩
  rw [Web.run_continueFlow hline hflow haction (he.1 ▸ hlatest), hsteps,
    Work.handleAction_position hroot.steps R.stands _ (.retry k) haddress, Place.carriedOut, hread, Work.runAt,
    if_pos (Int.natCast_nonneg _), map_bind, Int.toNat_natCast]
  rfl

/-- **Where no destination leads anywhere** the caller is told so, and the run goes on behind the step. -/
theorem run_of_unreachable (hroot : Flow.Addressable who.flow) (hst : R.Ready st) {a : Arrival} (ha : R.AsksFrom a k)
    (hk : R.reachable k = []) :
    (R.served a).run st = ((Outcome.notAvailable.rendering.verbs ++ ·) <$> R.behind a).run st := by
  -- in a list that a request goes on with, the caller is sent on
  have hredirect {c : CallContext} {branch : Option String} (hc : who.About c)
      (hbranch : Flow.given branch = Flow.given R.place.branch) :
      (Rendering.verbs <$> Work.runFrom c .redirect branch R.place.index (some k)
        (R.place.list.drop R.place.index)).run st =
      (.ok (Outcome.notAvailable.rendering.verbs ++ .redirect (R.address .next)), st) := by
    have hnext := Place.flow_position who.urls who.tenant who.line R.place .next hbranch
    refine (Task.run_bind_ok (runFrom_of_unreachable .redirect branch hst hc hk)).trans ?_
    rw [Work.goTo, hc.tenant, hc.line]
    exact congrArg (fun url => (Except.ok (Outcome.notAvailable.rendering.verbs ++ Response.redirect url), st)) hnext
  cases ha with
  | @comes c mode hc =>
    cases mode with
    | redirect => exact hredirect hc rfl
    | inline =>
      have hrun := runFrom_of_unreachable .inline R.place.branch hst hc hk
      rw [Int.natCast_zero] at hrun
      rw [served, behind, map_eq_pure_bind, Task.run_bind, hrun, ← Task.run_bind, ← map_eq_pure_bind, Functor.map_map,
        Functor.map_map]
      rfl
  | sent hlt he =>
    obtain ⟨c, hc, hsent⟩ := run_sent hroot hst hlt he
    exact hsent.trans (hredirect hc (Flow.given_given _))

/-- **Where a destination leads somewhere** the first one that does is tried, and nothing else is answered. -/
theorem run_of_reachable (hroot : Flow.Addressable who.flow) (hst : R.Ready st) {a : Arrival} (ha : R.AsksFrom a k)
    {i : Nat} {t : DialTarget} {rest : List (Nat × DialTarget)} (hk : R.reachable k = (i, t) :: rest) :
    ∃ b st' s, (R.served a).run st = (.ok [.bridge b], st') ∧ who.Has st' s ∧ R.Opened i t s := by
  cases ha with
  | @comes c mode hc =>
    obtain ⟨b, st', s, hrun, h⟩ := runFrom_of_reachable mode hst hc rfl hk
    exact ⟨b, st', s, Task.run_bind_ok hrun, h⟩
  | sent hlt he =>
    obtain ⟨c, hc, hsent⟩ := run_sent hroot hst hlt he
    obtain ⟨b, st', s, hrun, h⟩ := runFrom_of_reachable .redirect hst hc (Flow.given_given _) hk
    exact ⟨b, st', s, hsent.trans (Task.run_bind_ok hrun), h⟩

theorem Opened.attemptIndex {i : Nat} {t : DialTarget} {s : Segment} (h : R.Opened i t s) :
    s.scratch.resume.attemptIndex = i := by
  obtain ⟨flow, branch, -, hresume⟩ := h.resume
  rw [hresume]
  rfl

section Opened

variable {i : Nat} {t : DialTarget} {s : Segment} (h : R.Opened i t s) {ds : List Deed}
  (hds : ∀ d ∈ ds, d.isStart = false)
include h hds

/-- **The address behind a failed attempt** is that of the next destination, or of the next step. -/
theorem decisionAddress_of_opened {a : Act} {d : Decision} (hd : ((s.lived ds).effect a).decision = some d) :
    Work.decisionAddress who.urls d =
      some (R.address (if i + 1 < R.step.destinations.length then .retry (i + 1 : Nat) else .next)) := by
  obtain ⟨-, -, -, rfl⟩ := Segment.decision_inv hd
  obtain ⟨flow, branch, hbranch, hresume⟩ := h.resume
  obtain ⟨hkeeps, htenant⟩ := Segment.token_run ds s hds
  rw [Segment.decisionAddress_of_roundRobin ((Segment.number_lived ds s).trans h.number) (hkeeps.trans hresume),
    Place.flow_position _ _ _ _ _ hbranch, show (s.lived ds).tenantId = who.tenant from htenant.trans h.tenant]
  by_cases hnext : i + 1 < R.step.destinations.length
  · rw [if_pos (by omega), if_pos hnext]
    rfl
  · rw [if_neg (by omega), if_neg hnext]
    rfl

/-- **The first join of the caller dials the destination**, and nobody else. -/
theorem dials_of_opened (hjoins : ∀ d ∈ ds, d.joins s.scratch.attemptSeq = false) {u : Segment} {rev : Int}
    (hu : u = (s.lived ds).revised rev) (hs : who.Has st u) (hup : st.isUp = true) (hfew : st.conflicts < Work.mutateTries)
    {seq : Option Int} (hseq : seq.all (· = s.scratch.attemptSeq) = true) (conferenceSid : Option String) :
    ((Work.callerJoined who.sid 0 seq conferenceSid).run st).2.dials = st.dials ++ [st.legFor u t] := by
  obtain ⟨hcurrent, htargets⟩ := Segment.attempt_lived ds s hds
  have hundialed : (s.lived ds).scratch.dialed = false := by
    rw [Segment.dialed_lived ds s hcurrent, show s.scratch.dialed = false from congrArg Prod.fst h.undialed,
      Bool.false_or, List.any_eq_false.2 fun d hd => Bool.eq_false_iff.1 (hjoins d hd), Bool.and_false]
  have hfirst : (u.effect (.callerJoins seq conferenceSid)).dials = true := by
    refine (Work.dials_iff u seq conferenceSid).2 ⟨?_, ?_, ?_⟩
    · rw [Segment.isOther_eq_false_iff, hu]
      rw [← hcurrent] at hseq
      exact hseq
    · rw [hu]
      exact hundialed
    · rw [hu]
      exact (Segment.agentDialedFromTransfer_lived ds s).trans (congrArg Prod.snd h.undialed)
  have hdials := Work.dials_callerJoined hs.stored ((Naming.root_of_unmarked who.unmarked).trans hs.sid.symm) hup hfew seq
    conferenceSid
  rw [if_pos hfirst, hs.number, show u.scratch.targets = [t] by rw [hu]; exact htargets.trans h.targets] at hdials
  exact hdials

end Opened

/-! ## Runs -/

theorem reachable_behind {i : Nat} {t : DialTarget} {rest : List (Nat × DialTarget)} (h : R.reachable k = (i, t) :: rest) :
    rest = R.reachable (i + 1) := by
  have hle : k ≤ i := (Work.mem_resolvable (show (i, t) ∈ R.reachable k from h ▸ List.mem_cons_self)).1
  rw [Work.resolvable_behind h, List.drop_drop, show k + (i + 1 - k) = i + 1 by omega]
  rfl

theorem reachable_of_length_le (h : R.step.destinations.length ≤ k) : R.reachable k = [] := by
  rw [reachable, List.drop_eq_nil_of_le h]
  rfl

/-- **The step is not asked for** at the address behind it. -/
theorem address_next_ne (k : Int) : R.address .next ≠ R.address (.retry k) := by
  intro h
  have hquery : (R.place.position .next).query = (R.place.position (.retry k)).query := by
    unfold address at h
    rw [Callbacks.flow_eq, Callbacks.flow_eq] at h
    have hpath : who.urls.base ++ who.path false ++ "?" ++ (R.place.position .next).query =
        who.urls.base ++ who.path false ++ "?" ++ (R.place.position (.retry k)).query := by
      rw [who.path_eq, if_neg Bool.false_ne_true, String.append_empty]
      exact h
    exact (who.path_inj hpath).2
  -- an event there would ask for two actions
  have hnone (fields : Web.Fields) (h : fields = Text.Percent.fields (R.place.position .next).query) : False := by
    have hnext := Web.given_action (e := ⟨fields, []⟩) h
    rw [hquery] at h
    rw [Web.given_action (e := ⟨fields, []⟩) h] at hnext
    simp [Place.position, Callbacks.Position.at, Flow.given] at hnext
  exact hnone _ rfl

end Rota

/-- An attempt of a run, which fails: the segment as the attempt was opened on it, what becomes of it meanwhile, and what is
decided in the end.  Whether the last leg ends, none can be placed or the caller's dial is over, nothing but an act that
claims the failure decides. -/
structure Round where
  opened : Segment
  meanwhile : List Deed
  last : Act
  decision : Decision
  within : ∀ d ∈ meanwhile, d.isStart = false
  fails : ((opened.lived meanwhile).effect last).decision = some decision

/-- Whom the attempt dials. -/
def Round.targets (r : Round) : List DialTarget := r.opened.scratch.targets

/-- The number of the destination that the attempt is about. -/
def Round.index (r : Round) : Int := r.opened.scratch.resume.attemptIndex

/-- How a run leaves a step. -/
inductive Departure where
  /-- No attempt was made when it came to be there. -/
  | passing (a : Arrival) (st : State)
  /-- An attempt failed, and the caller is sent somewhere else. -/
  | sent (url : String)

namespace Rota

variable {who : Caller} (R : Rota who)

/-- A run of a step, on which every attempt fails and the caller goes where it is decided.  Nothing is asked of what goes on
in between but that the step is served in states that are ready for it. -/
inductive Run : Arrival → List Round → Departure → Prop
  | passes {a : Arrival} {st : State} (hst : R.Ready st) (h : ∀ b st', (R.served a).run st ≠ (.ok [.bridge b], st')) :
    Run a [] (.passing a st)
  | leaves {a : Arrival} {st st' : State} {b : Bridge} {r : Round} {url : String} (hst : R.Ready st)
    (h : (R.served a).run st = (.ok [.bridge b], st')) (hs : who.Has st' r.opened)
    (hurl : Work.decisionAddress who.urls r.decision = some url) (haway : ∀ k, url ≠ R.address (.retry k)) :
    Run a [r] (.sent url)
  | goesOn {a : Arrival} {st st' : State} {b : Bridge} {r : Round} {k : Int} {e : Event} {rounds : List Round}
    {d : Departure} (hst : R.Ready st) (h : (R.served a).run st = (.ok [.bridge b], st')) (hs : who.Has st' r.opened)
    (hurl : Work.decisionAddress who.urls r.decision = some (R.address (.retry k)))
    (he : who.AsksAt e (R.address (.retry k))) (hrest : Run (.sent e) rounds d) : Run a (r :: rounds) d

/-- A run leaves the step for the one behind it, in the same list. -/
def GoesBehind : Departure → Prop
  | .passing a st => (R.served a).run st = ((Outcome.notAvailable.rendering.verbs ++ ·) <$> R.behind a).run st
  | .sent url => url = R.address .next

variable {R}

/-- **An attempt that is made** is one to reach the first destination that leads somewhere. -/
theorem opened_of_bridge (hroot : Flow.Addressable who.flow) {st st' : State} (hst : R.Ready st) {a : Arrival} {k : Nat}
    (ha : R.AsksFrom a k) {b : Bridge} (h : (R.served a).run st = (.ok [.bridge b], st')) {s : Segment}
    (hs : who.Has st' s) : ∃ i t, R.reachable k = (i, t) :: R.reachable (i + 1) ∧ R.Opened i t s := by
  cases hk : R.reachable k with
  | nil =>
    rw [run_of_unreachable hroot hst ha hk] at h
    obtain ⟨verbs, st₁, -, hdone⟩ := Task.run_bind_eq_ok h
    -- where nobody can be reached the caller is told so first
    cases hdone
  | cons x rest =>
    obtain ⟨i, t⟩ := x
    obtain ⟨b', st₁, s', hrun, hs', hopened⟩ := run_of_reachable hroot hst ha hk
    obtain rfl : st₁ = st' := congrArg Prod.snd (hrun.symm.trans h)
    cases hs'.eq hs
    exact ⟨i, t, by rw [reachable_behind hk], hopened⟩

/-- The rounds of a run are about the destinations from an index on that lead somewhere: one about each, in order. -/
structure Tries (R : Rota who) (k : Nat) (rounds : List Round) : Prop where
  tried : rounds.map (fun r => (r.index, r.targets)) = (R.reachable k).map fun x => ((x.1 : Int), [x.2])
  opened : ∀ r ∈ rounds, ∃ x ∈ R.reachable k, R.Opened x.1 x.2 r.opened

theorem Tries.nil {k : Nat} (hk : R.reachable k = []) : R.Tries k [] :=
  ⟨by rw [hk]; rfl, fun _ hr => absurd hr List.not_mem_nil⟩

theorem Tries.cons {k i : Nat} {t : DialTarget} {r : Round} {rounds : List Round}
    (hk : R.reachable k = (i, t) :: R.reachable (i + 1)) (hr : R.Opened i t r.opened) (h : R.Tries (i + 1) rounds) :
    R.Tries k (r :: rounds) := by
  refine ⟨?_, List.forall_mem_cons.2 ⟨⟨(i, t), hk ▸ List.mem_cons_self, hr⟩, fun r' hr' => ?_⟩⟩
  · rw [hk, List.map_cons, List.map_cons, h.tried, Round.index, Round.targets, hr.attemptIndex, hr.targets]
  · obtain ⟨x, hx, hopened⟩ := h.opened r' hr'
    exact ⟨x, hk ▸ List.mem_cons_of_mem _ hx, hopened⟩

/-- **What a run tries**: the destinations that lead somewhere, one in each round. -/
theorem Run.tries (hroot : Flow.Addressable who.flow) {a : Arrival} {rounds : List Round} {d : Departure}
    (h : R.Run a rounds d) : ∀ {k : Nat}, R.AsksFrom a k → R.Tries k rounds ∧ R.GoesBehind d := by
  induction h with
  | @passes a st hst h =>
    intro k ha
    cases hk : R.reachable k with
    | nil => exact ⟨.nil hk, run_of_unreachable hroot hst ha hk⟩
    | cons x rest =>
      obtain ⟨b, st', s, hrun, -⟩ := run_of_reachable (i := x.1) (t := x.2) hroot hst ha hk
      exact absurd hrun (h b st')
  | @leaves a st st' b r url hst h hs hurl haway =>
    intro k ha
    obtain ⟨i, t, hk, hopened⟩ := opened_of_bridge hroot hst ha h hs
    rw [decisionAddress_of_opened hopened r.within r.fails] at hurl
    split at hurl
    · exact absurd (Option.some.inj hurl).symm (haway _)
    · rename_i hlast
      exact ⟨.cons hk hopened (.nil (reachable_of_length_le (Nat.le_of_not_lt hlast))), (Option.some.inj hurl).symm⟩
  | @goesOn a st st' b r k' e rounds d hst h hs hurl he hrest ih =>
    intro k ha
    obtain ⟨i, t, hk, hopened⟩ := opened_of_bridge hroot hst ha h hs
    rw [decisionAddress_of_opened hopened r.within r.fails] at hurl
    split at hurl
    · rename_i hnext
      rw [← Option.some.inj hurl] at he
      obtain ⟨htries, hbehind⟩ := ih (.sent hnext he)
      exact ⟨.cons hk hopened htries, hbehind⟩
    · exact absurd (Option.some.inj hurl) (address_next_ne _)

/-- What becomes of a step that dials its destinations one after another. -/
structure TriesEach (R : Rota who) : Prop where
  /-- Wherever it is asked for from a destination on, the first one from there that leads somewhere is tried; where none does
  the caller is told that nobody is there, and the run goes on behind the step. -/
  answers : ∀ a k, R.AsksFrom a k → ∀ st, R.Ready st → match R.reachable k with
    | [] => (R.served a).run st = ((Outcome.notAvailable.rendering.verbs ++ ·) <$> R.behind a).run st
    | (i, t) :: _ => ∃ b st' s, (R.served a).run st = (.ok [.bridge b], st') ∧ who.Has st' s ∧ R.Opened i t s
  /-- The first join of the caller asks for one leg, to the destination that is tried. -/
  dials : ∀ i t s, R.Opened i t s → ∀ ds : List Deed,
    (∀ d ∈ ds, d.isStart = false ∧ d.joins s.scratch.attemptSeq = false) →
      ∀ st rev, who.Has st ((s.lived ds).revised rev) → st.isUp = true → st.conflicts < Work.mutateTries →
        ∀ seq conferenceSid, seq.all (· = s.scratch.attemptSeq) = true →
          ((Work.callerJoined who.sid 0 seq conferenceSid).run st).2.dials =
            st.dials ++ [st.legFor ((s.lived ds).revised rev) t]
  /-- Whatever has become of the attempt when it fails, the caller is sent to the step for the next destination, and behind
  the step where there is none. -/
  decides : ∀ i t s, R.Opened i t s → ∀ ds : List Deed, (∀ d ∈ ds, d.isStart = false) → ∀ a d,
    ((s.lived ds).effect a).decision = some d → Work.decisionAddress who.urls d =
      some (R.address (if i + 1 < R.step.destinations.length then .retry (i + 1 : Nat) else .next))
  /-- So a run that comes to the step tries each destination that leads somewhere once, in order, and goes on behind it. -/
  runs : ∀ c mode, who.About c → ∀ rounds d, R.Run (.comes c mode) rounds d →
    rounds.map Round.targets = (R.step.destinations.filterMap R.leads).map ([·]) ∧
    (rounds.map Round.index).Pairwise (· < ·) ∧
    (∀ r ∈ rounds, ∃ i : Fin R.step.destinations.length, r.index = i ∧
      ∃ t, R.leads R.step.destinations[i] = some t ∧ R.Opened i t r.opened) ∧
    R.GoesBehind d
  /-- On a segment that a transfer opened a failed attempt leads nowhere: the call ends. -/
  breaksOff : ∀ (s : Segment) a d urls, 0 < s.number → (s.effect a).decision = some d → Work.decisionAddress urls d = none

end Rota

/-- **A round robin tries each destination that leads somewhere once, in order**, as long as the call is not handed on. -/
theorem round_robin_tries_each_destination_once {who : Caller} (hroot : Flow.Addressable who.flow) (R : Rota who) :
    R.TriesEach where
  answers a k ha st hst := by
    cases hk : R.reachable k with
    | nil => exact Rota.run_of_unreachable hroot hst ha hk
    | cons x rest => exact Rota.run_of_reachable hroot hst ha hk
  dials i t s h ds hds st rev hs hup hfew seq conferenceSid hseq :=
    Rota.dials_of_opened h (fun d hd => (hds d hd).1) (fun d hd => (hds d hd).2) rfl hs hup hfew hseq conferenceSid
  decides i t s h ds hds a d hd := Rota.decisionAddress_of_opened h hds hd
  runs c mode hc rounds d h := by
    obtain ⟨⟨htried, hopened⟩, hbehind⟩ := h.tries hroot (.comes hc)
    refine ⟨?_, ?_, fun r hr => ?_, hbehind⟩
    · have htargets := congrArg (List.map Prod.snd) htried
      rw [List.map_map, List.map_map] at htargets
      exact htargets.trans (by rw [← Work.map_snd_resolvable 0, List.map_map]; rfl)
    · have hindexes := congrArg (List.map Prod.fst) htried
      rw [List.map_map, List.map_map] at hindexes
      have hincreasing := (Work.pairwise_resolvable R.leads 0 R.step.destinations).map (fun n : Nat => (n : Int))
        fun _ _ => Int.ofNat_lt.2
      rw [List.map_map] at hincreasing
      exact hindexes ▸ hincreasing
    · obtain ⟨⟨i, t⟩, hx, hr⟩ := hopened r hr
      obtain ⟨-, d, hd, ht⟩ := Work.mem_resolvable hx
      obtain ⟨hlt, hget⟩ := List.getElem?_eq_some_iff.1 hd
      exact ⟨⟨i, hlt⟩, hr.attemptIndex, t, (congrArg R.leads hget).trans ht, hr⟩
  breaksOff s a d urls hnumber hd := by
    obtain ⟨-, -, -, rfl⟩ := Segment.decision_inv hd
    have hends : s.moveAfterFailure = .terminate := if_pos (decide_eq_true hnumber)
    rw [Work.decisionAddress, Segment.decisionAfterFailure, hends]

/-- The instructions that are given where nothing fails. -/
def Web.verbs? (r : Except Fault Web.Reply) : Option Response :=
  r.toOption.bind fun
    | ⟨200, .verbs v⟩ => some v
    | _ => none

theorem Web.eq_ofVerbs_of_verbs? {r : Except Fault Web.Reply} {v : Response} (h : verbs? r = some v) :
    r = .ok (.ofVerbs v) := by
  obtain ⟨reply, hreply, hverbs⟩ := Option.bind_eq_some_iff.1 h
  rw [Flow.toOption_eq_some.1 hreply]
  split at hverbs
  · rw [← Option.some.inj hverbs]
    rfl
  · cases hverbs

/-- Of three destinations only the second one leads somewhere: it is the only one that is tried, and behind it the run goes
on with the next step. -/
theorem destinations_that_lead_nowhere_are_passed_over :
    let target : DialTarget := ⟨.phone, "+15557654321", "+15557654321", none⟩
    let robin : Flow.RoundRobin := ⟨["u@example.org", "+15557654321", "v@example.org"], 20, none⟩
    let steps : Flow.Steps :=
      [⟨"g", none, .greeting ⟨.tts, some "Hello", none, .echo, .enUS, none⟩⟩, ⟨"r", none, .roundRobin robin⟩]
    let who : Caller := ⟨steps, .ofBase "", "T", "L", "CA1", rfl⟩
    let R : Rota who := {
      place := ⟨none, steps, 1, ⟨"r", none, .roundRobin robin⟩⟩
      step := robin
      leads := fun d => if d = "+15557654321" then some target else none
      stands := ⟨rfl, rfl⟩
      body := rfl }
    let c : CallContext := ⟨"T", "L", "CA1", some "F", none, none, 0, false⟩
    Flow.Addressable who.flow ∧ who.About c ∧ ∃ r d, R.Run (.comes c .redirect) [r] d ∧ r.targets = [target] ∧
      r.index = 1 ∧ R.GoesBehind d := by
  intro target robin steps who R c
  have hroot : Flow.Addressable who.flow := by decide +kernel
  have hc : who.About c := ⟨rfl, rfl, by decide +kernel, rfl⟩
  have hrobin : R.TriesEach := round_robin_tries_each_destination_once hroot R
  let doc : Json := .arr
    [.obj [("id", .str "g"), ("type", .str "greeting"),
      ("config", .obj [("message", .obj [("type", .str "tts"), ("text", .str "Hello")])])],
     .obj [("id", .str "r"), ("type", .str "round_robin"),
      ("config", .obj [("destinations", .arr (robin.destinations.map .str))])]]
  let st := { State.holding [] with
    store := { Store.empty with
      flows := [⟨"F", "T", "Main", none, true, false, .ok doc, .utc 0, .utc 0⟩]
      lines := [⟨"L", "T", "+15550199", none, true, true, some "F"⟩] }
    settings := { (State.holding []).settings with authToken := "secret" } }
  let form : List (String × String) := [("host", "localhost"), ("content-type", "application/x-www-form-urlencoded")]
  let incoming : Web.Request := ⟨.post, "/voice/incoming/T/L", "", form, "CallSid=CA1"⟩
  let asks (query : String) : Web.Request := ⟨.post, "/voice/flow/T/L", query, form, "CallSid=CA1"⟩
  let st₁ := ((Web.serve incoming).run st).2
  let st₂ := ((Web.serve (asks "step=1&action=round_robin&attempt=1&seq=1")).run
    ((Web.serve (asks "step=1")).run st₁).2).2
  have hproceeds₁ : Relation.ReflTransGen State.Proceeds st st₁ := .single (.alone st (.request incoming (by decide +kernel)))
  have hproceeds₂ : Relation.ReflTransGen State.Proceeds st st₂ :=
    .tail (.tail hproceeds₁ (.alone _ (.request (asks "step=1") (by decide +kernel))))
      (.alone _ (.request (asks "step=1&action=round_robin&attempt=1&seq=1") (by decide +kernel)))
  -- what is to be known of a state, so that the step is served there
  let fixed (st : State) : Bool := st.settings.baseUrl = "" ∧ st.store.lines.map LineRow.id = ["L"] ∧
    (st.store.flows.map fun f => f.steps.toOption) = [some doc] ∧ (∀ r ∈ st.store.calls, r.segment.number = 0 ∧
      r.segment.tenantId = "T" ∧ r.segment.duration = none) ∧
    (((lineOf "T" "L").run st).1.toOption.bind id).any (fun l => (Flow.given l.flowId).isSome) = true ∧
    (((Work.latest? "CA1" (some "T")).run st).1.toOption.bind id).any (fun s => !s.scratch.agentDialedFromTransfer) = true ∧
    (∀ d ∈ robin.destinations, ((Work.resolve? "T" d).run st).1.toOption = some (R.leads d)) ∧ st.isUp = true ∧
    st.conflicts = 0
  have hready {st' : State} (hproceeds : Relation.ReflTransGen State.Proceeds st st') (h : fixed st' = true) :
      R.Ready st' := by
    obtain ⟨hbase, hlines, hflows, hcalls, hline, hlatest, hleads, hup, hconflicts⟩ := of_decide_eq_true h
    exact .of_proceeds rfl hproceeds (.of_one_line (congrArg Callbacks.ofBase hbase) hlines hflows rfl hcalls) hline hlatest
      hleads hup (by rw [hconflicts]; decide)
  have hfixed : fixed st₁ = true ∧ fixed st₂ = true := by decide +kernel
  have h₁ := hready hproceeds₁ hfixed.1
  have h₂ := hready hproceeds₂ hfixed.2
  clear_value st₁ st₂
  have hfirst : R.reachable 0 = [(1, target)] := by decide +kernel
  have hlast : R.reachable 2 = [] := by decide +kernel
  have htry := hrobin.answers (.comes c .redirect) 0 (.comes hc) st₁ h₁
  rw [hfirst] at htry
  obtain ⟨b, st', s, hrun, hs, hopened⟩ := htry
  have hfails : ((s.lived []).effect (.dialEnds none 0)).decision = some s.decisionAfterFailure :=
    Segment.decision_of_dialEnds hopened.unanswered.1 hopened.unanswered.2 0
  have hnone : ∀ d ∈ ([] : List Deed), d.isStart = false := fun _ hd => absurd hd List.not_mem_nil
  let r : Round := ⟨s, [], .dialEnds none 0, s.decisionAfterFailure, hnone, hfails⟩
  have hurl := hrobin.decides 1 target s hopened [] hnone _ _ hfails
  rw [if_pos (by decide)] at hurl
  let e : Event := ⟨Text.Percent.fields "step=1&action=round_robin_redirect&attempt=2", [("CallSid", "CA1")]⟩
  have he : who.AsksAt e (R.address (.retry (2 : Nat))) := ⟨by decide +kernel, _, by decide +kernel, rfl⟩
  have hpass := hrobin.answers (.sent e) 2 (.sent (by decide) he) st₂ h₂
  rw [hlast] at hpass
  have hrobinRun : R.Run (.comes c .redirect) [r] (.passing (.sent e) st₂) := by
    refine .goesOn h₁ hrun hs hurl he (.passes h₂ fun b st' h => ?_)
    rw [hpass] at h
    cases h
  obtain ⟨htargets, -, hrounds, hbehind⟩ := hrobin.runs c .redirect hc _ _ hrobinRun
  exact ⟨hroot, hc, r, _, hrobinRun, (List.cons.inj htargets).1, hopened.attemptIndex, hbehind⟩

/-- The flow of a call that was transferred is asked for once more.  It tries the first of two destinations, which both lead
somewhere; when the caller's dial ends unanswered the caller is hung up on, and the second one is never tried. -/
theorem handed_on_round_robin_breaks_off :
    let doc : Json :=
      .arr [.obj [("id", .str "r"), ("type", .str "round_robin"),
        ("config", .obj [("destinations", .arr [.str "+15557654321", .str "+15557654322"])])]]
    let st₀ := { State.holding [] with
      store := { Store.empty with
        flows := [⟨"F", "T", "Main", none, true, false, .ok doc, .utc 0, .utc 0⟩]
        lines := [⟨"L", "T", "+15550199", none, true, true, some "F"⟩]
        users := [⟨"U", "u@example.org", none, none⟩]
        members := [⟨"M", "T", "U", true⟩] }
      settings := { (State.holding []).settings with authToken := "secret", apiKey := "key" } }
    let form : List (String × String) := [("host", "localhost"), ("content-type", "application/x-www-form-urlencoded")]
    let incoming : Web.Request := ⟨.post, "/voice/incoming/T/L", "", form, "CallSid=CA1"⟩
    let transfer : Web.Request := ⟨.post, "/api/tenants/T/calls/CA1/transfer", "",
      [("host", "localhost"), ("content-type", "application/json"), ("x-api-key", "key")],
      "\x7b\x22toUserId\x22: \x22M\x22\x7d"⟩
    let asked : Web.Request := ⟨.post, "/voice/flow/T/L", "step=0", form, "CallSid=CA1"⟩
    let reported : Web.Request :=
      ⟨.post, "/voice/flow/T/L", "step=0&action=round_robin&attempt=0&seq=2", form, "CallSid=CA1"⟩
    let st := ((Web.serve transfer).run ((Web.serve incoming).run st₀).2).2
    let tried := (Web.serve asked).run st
    let ended := (Web.serve reported).run tried.2
    st₀.store.calls = [] ∧ Relation.ReflTransGen State.Proceeds st₀ st ∧
      (∀ d ∈ ["+15557654321", "+15557654322"], ∃ t, (Work.resolve? "T" d).run tried.2 = (.ok (some t), tried.2)) ∧
      (∃ b, tried.1 = .ok (.ofVerbs [.bridge b]) ∧
        b.action = some "/voice/flow/T/L?step=0&action=round_robin&attempt=0&seq=2") ∧
      ended.1 = .ok (.ofVerbs .hangup) := by
  let b : Bridge := {
    room := "call_CA1_seg_1"
    statusCallback := "/voice/conference/T/CA1/1?seq=2"
    waitUrl := "/voice/ring"
    action := some "/voice/flow/T/L?step=0&action=round_robin&attempt=0&seq=2"
    record := false
    recordingCallback := some "/voice/recording/T/CA1/1"
    endOnExit := true }
  -- each part is evaluated where it stands: under names for the states the kernel would evaluate it again
  refine ⟨rfl, ?proceeds, ?leads, ⟨b, ?tries, rfl⟩, ?ends⟩
  case proceeds =>
    exact .tail (.single (.alone _ (.request _ (by decide +kernel)))) (.alone _ (.request _ (by decide +kernel)))
  case leads => exact Work.exists_run_resolve? (by decide +kernel)
  case tries => exact Web.eq_ofVerbs_of_verbs? (by decide +kernel)
  case ends => exact Web.eq_ofVerbs_of_verbs? (by decide +kernel)

end Switchboard
