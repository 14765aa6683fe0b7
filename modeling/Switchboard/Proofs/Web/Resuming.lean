import Switchboard.Proofs.Flow.Paths
import Switchboard.Proofs.Service.Continuations
import Switchboard.Proofs.Text.Percent
import Switchboard.Web.Hooks
/-!
# A flow resumes where it left

Whenever a run comes to a step, the branch that it carries leads from the root to the list that the step stands in, so the
addresses that it gives the provider and the tokens that it stores name that list.  What is asked for at such an address is
read back as it was written, and is carried out on the same list from the same step, or from the one behind it
(`resumes_where_it_left`).
-/
namespace Switchboard

open Switchboard.Flow (Step Steps)
open Work (Place Leads Permits)
open Web (Event Fields)

/-! ## What is read back of an address -/

namespace Callbacks

/-- The query of the address at which a flow continues. -/
def Position.query (p : Position) : String := Text.Percent.query Text.Percent.form (present p.fields)

theorem mem_present {fs : List Field} {f : String × String} (h : f ∈ present fs) :
    ∃ v, (f.1, v) ∈ fs ∧ Flow.given v = some f.2 := by
  obtain ⟨⟨name, v⟩, hv, hf⟩ := List.mem_filterMap.1 h
  cases v with
  | none => cases hf
  | some v =>
    dsimp only at hf
    split at hf
    · cases hf
    · rename_i hne
      cases hf
      exact ⟨some v, hv, if_neg hne⟩

theorem present_of_given {fs : List Field} {name value : String} {v : Option String} (h : (name, v) ∈ fs)
    (hv : Flow.given v = some value) : (name, value) ∈ present fs := by
  refine List.mem_filterMap.2 ⟨(name, v), h, ?_⟩
  obtain ⟨rfl, hne⟩ := Flow.given_eq_some.1 hv
  exact if_neg hne

/-- **A field is found under its name** among fields with names of their own, if it has a value. -/
theorem last?_present {fs : List Field} (hnames : (fs.map Prod.fst).Nodup) {name : String} {v : Option String}
    (h : (name, v) ∈ fs) : Fields.last? name (present fs) = Flow.given v := by
  have hone {w : Option String} (hw : (name, w) ∈ fs) : w = v := by
    have := List.inj_on_of_nodup_map hnames hw h rfl
    cases this
    rfl
  unfold Fields.last?
  cases hfind : (present fs).reverse.find? fun f => f.1 = name with
  | some f =>
    have hname : f.1 = name := of_decide_eq_true (List.find?_some (p := fun f : String × String => decide (f.1 = name)) hfind)
    obtain ⟨w, hw, hvalue⟩ := mem_present (List.mem_reverse.1 (List.mem_of_find?_eq_some hfind))
    rw [hname] at hw
    rw [hone hw] at hvalue
    exact hvalue.symm
  | none =>
    cases hv : Flow.given v with
    | none => rfl
    | some value =>
      have := List.find?_eq_none.1 hfind _ (List.mem_reverse.2 (present_of_given h hv))
      exact absurd (decide_eq_true rfl) this

theorem names_nodup (p : Position) : (p.fields.map Prod.fst).Nodup := by
  show ["step", "action", "branch", "attempt", "var", "seq"].Nodup
  decide

end Callbacks

theorem Text.given_toString (n : Int) : Flow.given (some (toString n)) = some (toString n) := by
  refine if_neg fun h => ?_
  have hlist := congrArg String.toList h
  cases n with
  | ofNat n => exact Nat.toDigits_ne_nil ((Text.toList_toString_nat n).symm.trans hlist)
  | negSucc n => exact List.cons_ne_nil _ _ ((String.toList_append (s := "-") ..).symm.trans hlist)

/-- **An address with a number in its query** ends in the query. -/
theorem Callbacks.address_of_number (urls : Callbacks) (path : String) {fs : List Field} {name : String} {n : Int}
    (h : int name (some n) ∈ fs) :
    urls.address path fs = urls.base ++ path ++ "?" ++ Text.Percent.query Text.Percent.form (present fs) := by
  have hpresent : present fs ≠ [] := List.ne_nil_of_mem (present_of_given h (Text.given_toString n))
  unfold address
  dsimp only
  rw [if_neg (by rw [List.isEmpty_iff]; exact hpresent)]

namespace Web

variable {e : Event} {p : Callbacks.Position} (h : e.address = Text.Percent.fields p.query)
include h

theorem last?_address {name : String} {v : Option String} (hv : (name, v) ∈ p.fields) :
    e.address.last? name = Flow.given v := by
  rw [h, Callbacks.Position.query, Text.Percent.fields_query]
  exact Callbacks.last?_present (Callbacks.names_nodup p) hv

theorem given_action : e.address.given "action" = Flow.given p.action := by
  rw [Fields.given, last?_address h (v := p.action) (by simp [Callbacks.Position.fields]), Flow.given_given]

theorem given_branch : e.address.given "branch" = Flow.given p.branch := by
  rw [Fields.given, last?_address h (v := p.branch) (by simp [Callbacks.Position.fields]), Flow.given_given]

theorem last?_var : e.address.last? "var" = Flow.given p.var :=
  last?_address h (by simp [Callbacks.Position.fields])

theorem parameter?_of_mem {name : String} {n : Option Int} (hn : Callbacks.int name n ∈ p.fields) :
    e.parameter? name = n.bind fun m => Text.int? (toString m) := by
  rw [Event.parameter?, last?_address h hn]
  cases n with
  | none => rfl
  | some m => rw [Option.map_some, Text.given_toString, Option.bind_some, Option.bind_some]

theorem parameter?_step (hstep : Text.Readable p.step) : e.parameter? "step" = some p.step := by
  rw [parameter?_of_mem h (n := some p.step) (by simp [Callbacks.Position.fields]), Option.bind_some,
    Text.int?_toString hstep]

theorem parameter?_attempt : e.parameter? "attempt" = p.attempt.bind fun n => Text.int? (toString n) :=
  parameter?_of_mem h (by simp [Callbacks.Position.fields])

theorem parameter?_seq : e.parameter? "seq" = p.seq.bind fun n => Text.int? (toString n) :=
  parameter?_of_mem h (by simp [Callbacks.Position.fields])

end Web

theorem Web.sentAttempt_of_unsent {e : Event} (h : e.form.given "attempt" = none) :
    (Web.flowReply e).sentAttempt = some 0 := by
  unfold Web.flowReply
  rw [h]

/-! ## What a callback comes to -/

/-- The lists of a flow, with the branches that lead to them. -/
def Flow.Leading (root : Steps) (branch : Option String) (list : List Step) : Prop := resolveBranch root branch = .ok list

theorem Flow.resolveBranch_given (root : Steps) (branch : Option String) :
    resolveBranch root (given branch) = resolveBranch root branch := by
  unfold resolveBranch
  rw [given_given]

namespace Work

variable {root : Steps}

/-- **A place has a number that is read back**, and so has the one behind it. -/
theorem Place.readable {p : Place} (hroot : Text.Readable (Flow.flat root).length) (hp : p.Stands (Flow.Leading root)) :
    Text.Readable p.index ∧ Text.Readable (p.index + 1 : Int) := by
  have hindex : p.index < p.list.length := (List.getElem?_eq_some_iff.1 hp.2).1
  have hlength := Flow.length_le_of_resolve hp.1
  exact ⟨hroot.of_le (by omega), hroot.of_le (by omega)⟩

open Web (flowReply)

/-- What a callback at an address of a place comes to: the list of the place is gone on with, from its step or behind it. -/
def Place.carriedOut (p : Place) (c : CallContext) (e : Event) : Continuation → Work (Rendering × List (String × String))
  | .next => do return (← runAt c .redirect (Flow.given p.branch) (p.index + 1) (flowReply e).sentAttempt p.list, [])
  | .menu => do return (← runChoice c (Flow.given p.branch) p.index (Flow.given (flowReply e).digits) p.list, [])
  | .menuInvalid => do return (← runChoice c (Flow.given p.branch) p.index none p.list, [])
  | .keypad var => runKeypad c (Flow.given p.branch) p.index (flowReply e).digits (Flow.given (some var)) p.list
  | .menuRetry n | .retry n => do
    return (← runAt c .redirect (Flow.given p.branch) p.index (some ((Text.int? (toString n)).getD 0)) p.list, [])

/-- **What is asked at an address of a place is carried out there.** -/
theorem handleAction_position {p : Place} (hroot : Text.Readable (Flow.flat root).length)
    (hp : p.Stands (Flow.Leading root)) (c : CallContext) {e : Event} (k : Continuation)
    (he : e.address = Text.Percent.fields (p.position k).query) :
    handleAction root c (e.address.given "branch") ((e.parameter? "step").getD 0) (flowReply e) = p.carriedOut c e k := by
  have hlist : Flow.resolveBranch root (Flow.given p.branch) = .ok p.list := (Flow.resolveBranch_given root _).trans hp.1
  have haction : (flowReply e).action = .ofName? (Flow.given (p.position k).action) :=
    congrArg Action.ofName? (Web.given_action he)
  have hattempt : (flowReply e).attempt = ((p.position k).attempt.bind fun n => Text.int? (toString n)).getD 0 :=
    congrArg (·.getD 0) (Web.parameter?_attempt he)
  have hvar : (flowReply e).var = Flow.given (p.position k).var := Web.last?_var he
  have hbranch : (p.position k).branch = p.branch := by cases k <;> rfl
  have hstep : (p.position k).step = if k = .next then (p.index + 1 : Int) else p.index := by cases k <;> rfl
  have hreadable : Text.Readable (p.position k).step := by
    rw [hstep]
    split
    · exact (p.readable hroot hp).2
    · exact (p.readable hroot hp).1
  unfold handleAction
  rw [Web.given_branch he, hbranch, hlist, Web.parameter?_step he hreadable, hstep, Option.getD_some, haction, hattempt, hvar]
  cases k <;> rfl

end Work

/-! ## What an attempt goes on with -/

namespace Segment

/-- Whether a deed opens the next attempt. -/
def Deed.isStart : Deed → Bool
  | act a => a.isStart
  | _ => false

@[simp] theorem claimed_resume (sc : Scratch) : (claimed sc).resume = sc.resume := by unfold claimed; split <;> rfl

theorem after_resume (s : Segment) (a : Act) (ha : a.isStart = false) : (s.after a).scratch.resume = s.scratch.resume := by
  cases a with
  | start => cases ha
  | callerJoins => rw [scratch_after_callerJoins]; split <;> rfl
  | register => rw [scratch_after_register]; split <;> rfl
  | finish => rw [scratch_after_finish]; split <;> simp
  | agentJoins => rw [scratch_after_agentJoins]; split <;> rfl
  | callerLeaves => rw [scratch_after_callerLeaves]; split <;> rfl
  | legEnds => rw [scratch_after_legEnds]; split <;> simp
  | dialEnds => rw [scratch_after_dialEnds]; split <;> simp

/-- **The token of an attempt stays** until the next attempt is started. -/
theorem did_resume (s : Segment) (d : Deed) (hd : d.isStart = false) : (s.did d).scratch.resume = s.scratch.resume := by
  cases d with
  | act a => exact after_resume s a hd
  | callerGone status now =>
    simp only [did, callerGone]
    split <;> rfl
  | callerRinging =>
    simp only [did, callerRinging]
    split <;> rfl
  | outgoingFinished status duration now =>
    simp only [did, outgoingFinished]
    split
    · rfl
    · split <;> rfl
  | addTag | setVariable => rfl

theorem did_tenantId (s : Segment) (d : Deed) : (s.did d).tenantId = s.tenantId := by
  rw [← overwriting_did]
  rfl

theorem token_run : ∀ (ds : List Deed) (s : Segment), (∀ d ∈ ds, d.isStart = false) →
    (ds.foldl did s).scratch.resume = s.scratch.resume ∧ (ds.foldl did s).tenantId = s.tenantId
  | [], _, _ => ⟨rfl, rfl⟩
  | d :: ds, s, h => by
    have hrest := token_run ds (s.did d) fun d' hd' => h d' (List.mem_cons_of_mem _ hd')
    exact ⟨hrest.1.trans (did_resume s d (h d List.mem_cons_self)), hrest.2.trans (did_tenantId s d)⟩

/-- **Where a token leads**: behind its place, or to the next destination of a round robin that has one. -/
theorem decisionAddress_of_token {s : Segment} {p : Place} {flow : Option String} {line : String} {attempt : Int}
    {type : Flow.StepType} {destinations : Nat}
    (h : s.scratch.resume = p.token flow line attempt type destinations) (urls : Callbacks) {address : String}
    (ha : Work.decisionAddress urls s.decisionAfterFailure = some address) :
    ∃ k, (k = .next ∨ k = .retry (attempt + 1) ∧ type = .roundRobin ∧ attempt + 1 < destinations) ∧
      address = urls.flow s.tenantId line (p.position k) := by
  unfold Work.decisionAddress decisionAfterFailure moveAfterFailure at ha
  rw [h] at ha
  dsimp only [Place.token] at ha
  by_cases htransfer : s.isTransfer = true
  · rw [if_pos htransfer] at ha
    cases ha
  · rw [if_neg htransfer] at ha
    split at ha
    · rename_i hmove
      split at hmove
      · rename_i hnext
        have htype : type = .roundRobin := by
          have hname := congrArg Flow.StepType.ofName? (Option.some.inj hnext.1)
          rw [Flow.StepType.ofName?_name, Flow.StepType.ofName?_name] at hname
          exact Option.some.inj hname
        cases hmove
        exact ⟨.retry (attempt + 1), .inr ⟨rfl, htype, hnext.2⟩, (Option.some.inj ha).symm⟩
      · cases hmove
    · rename_i hmove
      split at hmove
      · cases hmove
      · cases hmove
        exact ⟨.next, .inl rfl, (Option.some.inj ha).symm⟩
    · cases ha

end Segment

/-! ## Runs of a flow -/

namespace Work

open Store (sameId isAt CallRow.overwrite)

/-- What a run of a flow makes of a segment: it takes a note, or stores an attempt with the token of a place of the flow. -/
inductive Notes (root : Steps) (c : CallContext) (s : Segment) : Segment → Prop where
  | tag (name : String) (value : Option String) : Notes root c s (s.addTag name value).1
  | entry (name value : String) : Notes root c s (s.setVariable name value).1
  | attempt (p : Place) (hp : p.Stands (Flow.Leading root)) (attempt : Int) (type : Flow.StepType) (destinations : Nat)
    (targets : List DialTarget) (callerId : Option String) (timeout : Int) (record : Bool) :
    Notes root c s
      (s.startAttempt (p.token c.flowId c.lineId attempt type destinations) targets callerId timeout record).1

/-- A change that a run of a flow makes: on the side, by another writer's count, or by a conditional write of what it makes
of a segment. -/
inductive Noted (root : Steps) (c : CallContext) (st : State) : State → Prop where
  | aside {st' : State} (h : st.Aside st') : Noted root c st st'
  | contended (id : String) (n : Nat) : Noted root c st
      { st with conflicts := n, store := st.store.updateCalls (fun r => sameId r.segment.id id) CallRow.written }
  | wrote {s t : Segment} (h : Notes root c s t) : Noted root c st
      { st with store := st.store.updateCalls (isAt t.id s.revision) (CallRow.overwrite t) }

/-- The manner of a run of a flow. -/
def noting (root : Steps) (c : CallContext) : Manner where
  rely _ _ := True
  guar := Noted root c
  inv _ := True
  lasts _ _ := trivial
  aside := .aside
  contends _ := .contended

theorem permits_noting {root : Steps} (hroot : Text.Readable (Flow.flat root).length) (c : CallContext) :
    Permits (Flow.Leading root) c (noting root c) where
  tags name value _ _ := .mutate (M := noting root c) (fun _ _ => Noted.wrote (.tag name value)) _ _ _
  entries name value _ _ := .mutate (M := noting root c) (fun _ _ => Noted.wrote (.entry name value)) _ _ _
  attempts p hp attempt type destinations targets callerId timeout record _ _ := .mutate (M := noting root c)
    (fun _ _ => Noted.wrote (.attempt p hp attempt type destinations targets callerId timeout record)) _ _ _
  nested _ hp _ hchild := Flow.resolveBranch_child hp.1 hp.2 (Place.readable hroot hp).1 hchild

/-- **Work that answers in the manner of a run** takes such notes only, and answers as it should. -/
theorem upholds_noted {α : Type} {root : Steps} {c : CallContext} {t : Work α} {P : α → Prop}
    (h : (noting root c).Makes t P) (ht : Answers t) (st : State) :
    t.Upholds (State.terms (fun _ _ => True) (Noted root c)) (fun r _ => ∃ a, r = .ok a ∧ P a) st := by
  refine Task.Upholds.mono ?_ (((h.upholds st trivial).and (ht.upholds st)).of_terms (fun _ _ _ => ⟨trivial, trivial⟩)
    fun _ _ hg => hg.1)
  rintro r - ⟨⟨hP, -⟩, a, rfl⟩
  exact ⟨a, rfl, hP a rfl⟩

end Work

namespace Web

open Work (Notes Noted traceAction traceExecute handleAction execute)

section Continued

variable {tenant line : String} {e : Event} {st st₁ : State} {l : LineFlow}
  (hline : (lineOf tenant line).run st = (.ok (some l), st₁)) (hflow : (Flow.given l.flowId).isSome = true)
include hline hflow

theorem run_continueFlow_dialEnded (h : e.address.given "action" = some "round_robin") :
    (continueFlow tenant line e).run st = (afterDial tenant e).run st₁ := by
  unfold continueFlow
  rw [Task.run_bind_ok hline]
  dsimp only
  rw [if_neg (by rw [Option.isNone_eq_false_iff.2 hflow]; exact Bool.false_ne_true), if_pos h]

theorem run_continueFlow (h : e.address.given "action" ≠ some "round_robin") {st₂ : State} {s : Segment}
    (hs : (Work.latest? e.sid (some tenant)).run st₁ = (.ok (some s), st₂)) :
    (continueFlow tenant line e).run st = ((fun r => r.1.verbs) <$> handleAction l.steps (contextFor l e (some s))
      (e.address.given "branch") ((e.parameter? "step").getD 0) (flowReply e)).run st₂ := by
  unfold continueFlow
  rw [Task.run_bind_ok hline]
  dsimp only
  rw [if_neg (by rw [Option.isNone_eq_false_iff.2 hflow]; exact Bool.false_ne_true), if_neg h, Task.run_bind_ok hs]
  rfl

end Continued

/-- **The end of a dial** claims the failure of the attempt of the stored segment and hangs up its legs, or fails. -/
theorem run_claimAfterDial {st : State} {s : Segment} (h : st.store.Holds s) {sid : String}
    (hsid : Naming.root sid = s.rootSid) (seq : Option Int) :
    (∃ db k n, db.Holds ((s.after (.dialEnds seq st.now)).revised k) ∧ (Work.claimAfterDial sid s.number seq).run st =
      (.ok (s.effect (.dialEnds seq st.now)).decision,
        State.hangUp { st with store := db, conflicts := n } (s.effect (.dialEnds seq st.now)).hangUps)) ∨
    (∃ e st', (Work.claimAfterDial sid s.number seq).run st = (.error e, st')) ∧
      ¬ st.takes s (s.after (.dialEnds seq st.now)) := by
  rcases Work.mutate_cases (Segment.isChange_claimAfterDial seq st.now) h hsid with
    ⟨db, k, n, hrun, hdb, -⟩ | ⟨db, k, n, e, hrun, -, hno⟩
  · exact .inl ⟨db, k, n, hdb, (Task.run_bind_ok hrun).trans (Task.run_bind_ok (Work.run_endLegs _ _))⟩
  · refine .inr ⟨⟨e, { st with store := db, conflicts := n }, ?_⟩, hno⟩
    show (Work.mutate sid s.number none (Segment.claimAfterDial seq st.now) >>= _).run st = _
    exact Task.run_bind_error hrun

/-- **Behind the end of a dial** the caller is hung up on, or goes where the decision about the attempt of the stored
segment leads. -/
theorem afterDial_answers {tenant : String} {e : Event} {st st' : State} {s : Segment}
    (hs : (Work.latest? e.sid (some tenant)).run st = (.ok (some s), st')) (hstored : st'.store.Holds s)
    (hsid : Naming.root e.sid = s.rootSid) {verbs : Response} (h : ((afterDial tenant e).run st).1 = .ok verbs) :
    verbs = .hangup ∨ ∃ d url, (s.effect (.dialEnds e.seq st'.now)).decision = some d ∧
      Work.decisionAddress (.ofBase st'.settings.baseUrl) d = some url ∧ verbs = .redirect url := by
  unfold afterDial at h
  rw [Task.run_bind_ok hs] at h
  dsimp only at h
  split at h
  · exact .inl (Except.ok.inj h).symm
  · rcases run_claimAfterDial hstored hsid e.seq with ⟨_, _, _, -, hrun⟩ | ⟨⟨f, st'', hrun⟩, -⟩
    · rw [Task.run_bind_ok hrun] at h
      cases hd : (s.effect (.dialEnds e.seq st'.now)).decision with
      | none =>
        rw [hd] at h
        exact .inl (Except.ok.inj h).symm
      | some d =>
        rw [hd] at h
        dsimp only at h
        rw [Task.run_bind_ok (Work.run_callbacks _)] at h
        split at h
        · rename_i url hurl
          exact .inr ⟨d, url, rfl, hurl, (Except.ok.inj h).symm⟩
        · exact .inl (Except.ok.inj h).symm
    · rw [Task.run_bind_error hrun] at h
      cases h

theorem afterDial_leads {tenant : String} {e : Event} {st st' : State} {s : Segment}
    (hs : (Work.latest? e.sid (some tenant)).run st = (.ok (some s), st')) (hstored : st'.store.Holds s)
    (hsid : Naming.root e.sid = s.rootSid) {verbs : Response} (h : ((afterDial tenant e).run st).1 = .ok verbs) :
    ∀ a ∈ verbs.continuations, ∃ (act : Segment.Act) (d : Decision) (urls : Callbacks),
      (s.effect act).decision = some d ∧ Work.decisionAddress urls d = some a := by
  intro a ha
  rcases afterDial_answers hs hstored hsid h with rfl | ⟨d, url, hd, hurl, rfl⟩
  · cases ha
  · rw [List.mem_singleton.1 ha]
    exact ⟨_, d, _, hd, hurl⟩

end Web

/-! ## Resuming -/

section Resuming

open Work (Noted traceAction traceExecute handleAction execute)
open Web (Event continueFlow afterDial lineOf contextFor flowReply)

/-- **The address of a position** ends in its query. -/
theorem Callbacks.flow_eq (urls : Callbacks) (tenant line : String) (p : Position) :
    urls.flow tenant line p = urls.base ++ ("/voice/flow/" ++ tenant ++ "/" ++ line) ++ "?" ++ p.query :=
  urls.address_of_number _ List.mem_cons_self

/-- What it means for a flow to resume where it left. -/
structure Resumption (root : Steps) (c : CallContext) : Prop where
  /-- The walks that tell the places give what the interpreter gives. -/
  walks : (∀ branch index r, Prod.fst <$> traceAction root c branch index r = handleAction root c branch index r) ∧
    ∀ mode branch index attempt,
      Prod.fst <$> traceExecute root c mode branch index attempt = execute root c mode branch index attempt
  /-- A callback is answered, whatever others do meanwhile.  It comes to places whose branch leads to their list, each
  address that it gives is one of such a place, and each attempt that it stores has the token of one. -/
  acts : ∀ branch index r st, (traceAction root c branch index r).Upholds (State.terms (fun _ _ => True) (Noted root c))
    (fun res _ => ∃ out, res = .ok out ∧ Leads (Flow.Leading root) c out.1.1.verbs out.2) st
  /-- So does a run from any step on. -/
  executes : ∀ mode branch index attempt st,
    (traceExecute root c mode branch index attempt).Upholds (State.terms (fun _ _ => True) (Noted root c))
      (fun res _ => ∃ out, res = .ok out ∧ Leads (Flow.Leading root) c out.1.verbs out.2) st
  /-- An address at which a place goes on has the query of its position. -/
  addresses : ∀ (urls : Callbacks) tenant line p,
    urls.flow tenant line p = urls.base ++ ("/voice/flow/" ++ tenant ++ "/" ++ line) ++ "?" ++ p.query
  /-- What is asked with that query is carried out on the list of the place. -/
  carries : ∀ p : Place, p.Stands (Flow.Leading root) → ∀ k (e : Event), e.address = Text.Percent.fields (p.position k).query →
    ∀ c, handleAction root c (e.address.given "branch") ((e.parameter? "step").getD 0) (flowReply e) = p.carriedOut c e k
  /-- So is a request at that address for a line with the flow. -/
  continues : ∀ p : Place, p.Stands (Flow.Leading root) → ∀ k tenant line (e : Event) st st₁ st₂ l s,
    e.address = Text.Percent.fields (p.position k).query → (lineOf tenant line).run st = (.ok (some l), st₁) →
    (Flow.given l.flowId).isSome = true → l.steps = root → (Work.latest? e.sid (some tenant)).run st₁ = (.ok (some s), st₂) →
    (continueFlow tenant line e).run st = ((fun r => r.1.verbs) <$> p.carriedOut (contextFor l e (some s)) e k).run st₂
  /-- At the address of a dial the failure of the attempt is claimed, and the caller goes where the decision leads. -/
  claims : ∀ tenant line (e : Event) st st₁ st₂ l s, e.address.given "action" = some "round_robin" →
    (lineOf tenant line).run st = (.ok (some l), st₁) → (Flow.given l.flowId).isSome = true →
    (Work.latest? e.sid (some tenant)).run st₁ = (.ok (some s), st₂) → st₂.store.Holds s → Naming.root e.sid = s.rootSid →
    ∀ verbs, ((continueFlow tenant line e).run st).1 = .ok verbs → ∀ a ∈ verbs.continuations,
      ∃ (act : Segment.Act) (d : Decision) (urls : Callbacks),
        (s.effect act).decision = some d ∧ Work.decisionAddress urls d = some a
  /-- A decision about an attempt with the token of a place leads to the place, for the next destination, or behind it. -/
  decides : ∀ p : Place, ∀ (s : Segment) attempt type destinations targets callerId timeout record
    (ds : List Segment.Deed), (∀ d ∈ ds, d.isStart = false) → ∀ act d urls a,
      ((ds.foldl Segment.did
        (s.startAttempt (p.token c.flowId c.lineId attempt type destinations) targets callerId timeout record).1).effect
          act).decision = some d →
      Work.decisionAddress urls d = some a →
      ∃ k, (k = .next ∨ k = .retry (attempt + 1)) ∧ a = urls.flow s.tenantId c.lineId (p.position k)

/-- **A flow resumes where it left**, as long as its steps can be numbered by what a reader converts. -/
theorem resumes_where_it_left {root : Steps} (hroot : Text.Readable (Flow.flat root).length) (c : CallContext) :
    Resumption root c where
  walks := ⟨Work.fst_traceAction root c, Work.fst_traceExecute root c⟩
  acts branch index r := Work.upholds_noted ((Work.permits_noting hroot c).makes_traceAction (fun _ h => h) index r)
    (Work.answers_traceAction root c branch index r)
  executes mode branch index attempt :=
    Work.upholds_noted ((Work.permits_noting hroot c).makes_traceExecute (fun _ h => h) mode index attempt)
      (Work.answers_traceExecute root c mode branch index attempt)
  addresses := Callbacks.flow_eq
  carries p hp k _ he c := Work.handleAction_position hroot hp c k he
  continues p hp k tenant line e st st₁ st₂ l s he hline hflow hl hs := by
    have haction : e.address.given "action" ≠ some "round_robin" := by
      rw [Web.given_action he]
      cases k <;> simp [Place.position, Callbacks.Position.at, Flow.given]
    subst hl
    rw [Web.run_continueFlow hline hflow haction hs, Work.handleAction_position hroot hp _ k he]
  claims tenant line e st st₁ st₂ l s haction hline hflow hs hstored hsid verbs hverbs := by
    rw [Web.run_continueFlow_dialEnded hline hflow haction] at hverbs
    exact Web.afterDial_leads hs hstored hsid hverbs
  decides p s attempt type destinations targets callerId timeout record ds hds act d urls a hd ha := by
    obtain ⟨-, -, -, rfl⟩ := Segment.decision_inv hd
    obtain ⟨hresume, htenant⟩ := Segment.token_run ds
      (s.startAttempt (p.token c.flowId c.lineId attempt type destinations) targets callerId timeout record).1 hds
    obtain ⟨k, hk, haddress⟩ := Segment.decisionAddress_of_token hresume urls ha
    rw [htenant] at haddress
    exact ⟨k, hk.imp_right And.left, haddress⟩

/-- A choice in a menu leads into the list of its option, and what is entered there is kept there. -/
theorem entry_resumes_in_its_option :
    let message : Flow.Message := ⟨.tts, some "Your number?", none, .alloy, .enUS, none⟩
    let keypad : Step := ⟨"k", none, .keypadEntry ⟨message, "number", 4, 1, true, 5⟩⟩
    let root : Steps := [⟨"m", none, .menu ⟨message, 1, 5, 2⟩ [⟨"1", none, [keypad]⟩] []⟩]
    let c : CallContext := ⟨"T", "L", "CA1", some "F", none, none, 0, false⟩
    let p : Place := ⟨some (Flow.branchPath none 0 (Flow.Selector.option 0).text), [keypad], 0, keypad⟩
    let e : Event := ⟨Text.Percent.fields (p.position (.keypad "number")).query, [("Digits", "42")]⟩
    Text.Readable (Flow.flat root).length ∧
      (∃ out, ((traceAction root c none 0 ⟨.menu, some "1", 0, some 0, none⟩).run (.holding [])).1 = .ok out ∧
        out.2 = [p] ∧ Leads (Flow.Leading root) c out.1.1.verbs out.2) ∧
      handleAction root c (e.address.given "branch") ((e.parameter? "step").getD 0) (flowReply e) =
        p.carriedOut c e (.keypad "number") := by
  intro message keypad root c p e
  have hroot : Text.Readable (Flow.flat root).length := by decide
  have hresumes : Resumption root c := resumes_where_it_left hroot c
  refine ⟨hroot, ?_, hresumes.carries p ⟨rfl, rfl⟩ _ e rfl c⟩
  obtain ⟨st, -, -, out, hout, hleads⟩ :=
    (hresumes.acts none 0 ⟨.menu, some "1", 0, some 0, none⟩ (.holding [])).run fun _ => trivial
  have hplaces : ((traceAction root c none 0 ⟨.menu, some "1", 0, some 0, none⟩).run (.holding [])).1.map Prod.snd =
    .ok [p] := rfl
  have hsame := (congrArg (Except.map Prod.snd) hout).symm.trans hplaces
  exact ⟨out, hout, Except.ok.inj hsame, hleads⟩

end Resuming

end Switchboard
