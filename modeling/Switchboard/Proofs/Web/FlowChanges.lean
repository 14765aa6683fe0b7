import Mathlib.Data.List.Forall2
import Switchboard.Proofs.Flow.Prompts
import Switchboard.Proofs.Service.Run
import Switchboard.Proofs.Service.StoredFlows
import Switchboard.Web.Serving
/-!
# Flows are changed

Whoever changes a flow sends the columns that get new values.  Each may be sent as nothing, which is a value for the
description only: for steps it is passed over, and the name, whether the flow is active and whether it records cannot be
without one.  What is sent is accepted all the same, and the database refuses it (`flow_change_fails_iff_emptied`).  Any
other change is made or turned away, and touches nothing but what was sent.
-/
namespace Switchboard

open Switchboard.Flow (Defect Steps validate withoutSpeech)
open Input (Checked)

/-! ## Work that leaves something alone -/

/-- Work that, run alone, leaves alone what is seen of the state. -/
def Task.Leaves {σ ε α τ : Type} (see : σ → τ) (t : Task σ ε α) : Prop := ∀ s, see (t.run s).2 = see s

namespace Task.Leaves

variable {σ ε α β τ : Type} {see : σ → τ}

theorem pure (a : α) : (Pure.pure a : Task σ ε α).Leaves see := fun _ => rfl

theorem bind {t : Task σ ε α} {f : α → Task σ ε β} (ht : t.Leaves see) (hf : ∀ a, (f a).Leaves see) :
    (t >>= f).Leaves see := by
  intro s
  have hfirst := ht s
  rw [run_bind]
  split
  · rename_i a s' h
    rw [h] at hfirst
    exact (hf a s').trans hfirst
  · rename_i h
    rw [h] at hfirst
    exact hfirst

theorem recover {t : Task σ ε α} {handle : ε → Task σ ε α} (ht : t.Leaves see) (hf : ∀ e, (handle e).Leaves see) :
    (Task.recover handle t).Leaves see := by
  intro s
  have hfirst := ht s
  rw [run_recover]
  split
  · rename_i h
    rw [h] at hfirst
    exact hfirst
  · rename_i e s' h
    rw [h] at hfirst
    exact (hf e s').trans hfirst

theorem look {k : σ → Task σ ε α} (hk : ∀ s, (k s).Leaves see) : (Task.look k).Leaves see := fun s => hk s s

theorem update {f : σ → σ} (hf : ∀ s, see (f s) = see s) : (Task.update f : Task σ ε Unit).Leaves see := hf

theorem mapM {f : α → Task σ ε β} (hf : ∀ a, (f a).Leaves see) : ∀ as : List α, (as.mapM f).Leaves see
  | [] => by
    rw [List.mapM_nil]
    exact pure _
  | a :: rest => by
    rw [List.mapM_cons]
    exact (hf a).bind fun b => (mapM hf rest).bind fun bs => pure _

end Task.Leaves

/-- What is managed, and whether the database is there to change it. -/
structure State.Managed where
  isUp : Bool
  calls : List CallRow
  flows : List FlowRow
  lines : List LineRow

def State.managed (st : State) : State.Managed := ⟨st.isUp, st.store.calls, st.store.flows, st.store.lines⟩

namespace Work

open Switchboard.Task (Leaves)

theorem leaves_statement {α : Type} {f : Store → Except StoreFault (α × Store)}
    (hf : ∀ db a db', f db = .ok (a, db') → db'.calls = db.calls ∧ db'.flows = db.flows ∧ db'.lines = db.lines) :
    (statement f).Leaves State.managed := by
  intro st
  rw [run_statement]
  split
  · split
    · rename_i a db h
      obtain ⟨hcalls, hflows, hlines⟩ := hf _ _ _ h
      simp only [State.managed, hcalls, hflows, hlines]
    · rfl
  · rfl

theorem leaves_readAloud (text : String) (voice : Flow.Voice) : (readAloud text voice).Leaves State.managed := by
  refine Leaves.look fun st => ?_
  cases st.studio.readings with
  | none => exact Leaves.pure _
  | some script =>
    dsimp only
    obtain ⟨allowed, breaker⟩ := st.studio.readingBreaker.start readingLimits st.now
    refine Leaves.bind (Leaves.update fun _ => rfl) fun _ => ?_
    cases allowed with
    | false => exact Leaves.pure _
    | true =>
      refine Leaves.bind (Leaves.update fun _ => rfl) fun _ => ?_
      split
      all_goals exact Leaves.bind (Leaves.update fun _ => rfl) fun _ => Leaves.pure _

theorem leaves_synthesizePrompt (text : String) (voice : Flow.Voice) :
    (synthesizePrompt text voice).Leaves State.managed := by
  refine Leaves.recover ?_ fun _ => Leaves.pure _
  unfold synthesize
  split
  · exact Leaves.pure _
  · refine Leaves.bind (leaves_statement fun db a db' h => ?_) fun known => ?_
    · cases h
      exact ⟨rfl, rfl, rfl⟩
    split
    · exact Leaves.pure _
    · refine (leaves_readAloud text voice).bind fun audio => ?_
      split
      · exact Leaves.pure _
      · refine Leaves.bind (Leaves.bind (Leaves.update fun _ => rfl) fun _ => Leaves.look fun _ => Leaves.pure _)
          fun address => Leaves.bind (Leaves.look fun _ => Leaves.pure _) fun now => ?_
        refine Leaves.bind (leaves_statement fun db a db' h => ?_) fun _ => Leaves.pure _
        cases h
        obtain ⟨hcalls, hflows, hlines, -⟩ := putSpeech_aside ⟨_, voice.name, text, address, .utc now⟩ db
        exact ⟨hcalls, hflows, hlines⟩

theorem prepareSteps_ok (given : Steps) :
    prepareSteps (.ok given) = (do
      let _ ← Task.ofExcept ((validate given).mapError Fault.definition)
      return (← Flow.attachAudio synthesizePrompt given).1) := rfl

/-- **Steps that are fit to be saved get their speech**, or what there is of it, and nothing that is managed changes. -/
theorem run_prepareSteps {given : Steps} (hvalid : validate given = .ok ()) (st : State) :
    ∃ steps st', (prepareSteps (.ok given)).run st = (.ok steps, st') ∧ withoutSpeech steps = withoutSpeech given ∧
      st'.managed = st.managed := by
  have hhears : Flow.Hears synthesizePrompt withoutSpeech Flow.promptsOf given (Flow.attachSteps synthesizePrompt given) :=
    Flow.hears_steps given
  obtain ⟨result, hasks, -⟩ := hhears
  obtain ⟨answers, st', hanswers⟩ := Flow.run_mapM_sparing synthesize (Flow.unspoken (Flow.promptsOf given)) st
  have hrun : (Flow.attachAudio synthesizePrompt given).run st = (.ok (result answers), st') := by
    rw [Flow.attachAudio, hasks, map_eq_pure_bind]
    exact Task.run_bind_ok hanswers
  -- that it ends well is known from what it asks for, and what comes of it from what it upholds
  have hsame := (Flow.upholds_attachAudio (c := State.terms (fun _ _ => True) fun _ _ => True)
    (fun text voice st => (tame_synthesizePrompt text voice).upholds (fun _ _ _ => trivial) st) given st).ends
      fun _ => trivial
  have hleaves : st'.managed = st.managed := by
    have hrest := Leaves.mapM (fun p : Flow.Message => leaves_synthesizePrompt (p.text.getD "") p.voice)
      (Flow.unspoken (Flow.promptsOf given)) st
    exact (congrArg (fun out => State.managed out.2) hanswers).symm.trans hrest
  rw [hrun] at hsame
  refine ⟨(result answers).1, st', ?_, hsame _ rfl, hleaves⟩
  rw [prepareSteps_ok, hvalid]
  exact Task.run_bind_ok hrun

theorem run_prepareSteps_unfit {given : Steps} {e : Defect} (h : validate given = .error e) (st : State) :
    (prepareSteps (.ok given)).run st = (.error (.definition e), st) := by
  rw [prepareSteps_ok, h]
  rfl

/-! ## Changing a flow -/

end Work

/-- A flow as it is shown; steps that stand for nothing are an empty list. -/
def FlowRow.shown (f : FlowRow) (doc : Json) : Json :=
  .obj { f with steps := .ok (if doc.truthy then doc else .arr []) }.columns

namespace FlowDraft

/-- What is written of a draft, with the steps that were prepared. -/
def change (d : FlowDraft) (steps : Option Json) : Store.FlowChange :=
  ⟨d.name, d.description, d.isActive, d.records, steps⟩

/-- A draft that gives as nothing what cannot be without a value. -/
def Empties (d : FlowDraft) : Prop := d.name = some none ∨ d.isActive = some none ∨ d.records = some none

/-- A draft whose steps, where it gives any, are fit to be saved. -/
def Fit (d : FlowDraft) : Prop := ∀ r ∈ d.steps, ∃ given, r = .ok given ∧ validate given = .ok ()

/-- A flow that was changed as a draft says: what the draft gives is as it was given, and all else as it was, but for the
time of the change. -/
structure Changes (d : FlowDraft) (f g : FlowRow) : Prop where
  id : g.id = f.id
  tenantId : g.tenantId = f.tenantId
  name : g.name = d.name.join.getD f.name
  description : g.description = d.description.getD f.description
  isActive : g.isActive = d.isActive.join.getD f.isActive
  records : g.records = d.records.join.getD f.records
  kept : d.steps = none → g.steps = f.steps
  stored : ∀ given, d.steps = some (.ok given) → g.Stores given
  createdAt : g.createdAt = f.createdAt

/-- The steps of a draft as they are written: none where it gives none, else those that it gives, with speech. -/
def Writes (d : FlowDraft) (steps : Option Json) : Prop :=
  d.steps = none ∧ steps = none ∨
    ∃ given written, d.steps = some (.ok given) ∧ steps = some written.toJson ∧ withoutSpeech written = withoutSpeech given

section Change

variable {d : FlowDraft} {steps : Option Json}

theorem removesNeeded_change : (d.change steps).removesNeeded = true ↔ d.Empties := by
  unfold Store.FlowChange.removesNeeded
  rw [Bool.or_eq_true, Bool.or_eq_true, decide_eq_true_iff, decide_eq_true_iff, decide_eq_true_iff, or_assoc]
  rfl

theorem Writes.changes_apply (h : d.Writes steps) (now : Time.Instant) (f : FlowRow) :
    d.Changes f ((d.change steps).apply now f) := by
  refine ⟨rfl, rfl, rfl, rfl, rfl, rfl, fun hnone => ?_, fun given hgiven => ?_, rfl⟩
  · rcases h with ⟨-, rfl⟩ | ⟨given, _, hgiven, -⟩
    · rfl
    · rw [hnone] at hgiven
      cases hgiven
  · rcases h with ⟨hnone, -⟩ | ⟨given', written, hgiven', rfl, hsame⟩
    · rw [hnone] at hgiven
      cases hgiven
    · rw [hgiven'] at hgiven
      cases hgiven
      exact ⟨written, rfl, hsame⟩

/-- **A draft that gives nothing changes nothing.** -/
theorem Writes.changes_self (h : d.Writes steps) (hempty : (d.change steps).isEmpty = true) (f : FlowRow) :
    d.Changes f f := by
  simp only [change, Store.FlowChange.isEmpty, Bool.and_eq_true, Option.isNone_iff_eq_none] at hempty
  obtain ⟨⟨⟨⟨hname, hdescription⟩, hactive⟩, hrecords⟩, hsteps⟩ := hempty
  rcases h with ⟨hnone, -⟩ | ⟨_, _, -, hsome, -⟩
  · refine ⟨rfl, rfl, ?_, ?_, ?_, ?_, fun _ => rfl, fun given hgiven => ?_, rfl⟩
    · rw [hname]; rfl
    · rw [hdescription]; rfl
    · rw [hactive]; rfl
    · rw [hrecords]; rfl
    · rw [hnone] at hgiven
      cases hgiven
  · rw [hsteps] at hsome
    cases hsome

theorem not_isEmpty_of_empties (h : d.Empties) : (d.change steps).isEmpty = false := by
  rcases h with h | h | h <;> simp [change, Store.FlowChange.isEmpty, h]

end Change

end FlowDraft

/-- Whether a stored flow is the one that is asked for. -/
def FlowRow.isAskedFor (tenant id : String) (f : FlowRow) : Bool := Store.sameId f.id id && Store.sameId f.tenantId tenant

/-- Stored flows before and behind a change: the one that is asked for as it was changed, and the others as they were. -/
def FlowDraft.Touches (tenant id : String) (d : FlowDraft) : List FlowRow → List FlowRow → Prop :=
  List.Forall₂ fun f g => if f.isAskedFor tenant id then d.Changes f g else g = f

namespace Work

section Update

variable {tenant id : String} {d : FlowDraft} {f : FlowRow} {doc : Json} {steps : Option Json} {st : State}

theorem run_showFlow (hdoc : f.steps = .ok doc) (st : State) : (showFlow f).run st = (.ok (f.shown doc), st) := by
  unfold showFlow flowFields storedSteps
  rw [hdoc]
  rfl

/-- What is written of a draft once its steps are prepared. -/
def writeFlow (tenant id : String) (d : FlowDraft) (existing : Json) (steps : Option Json) : Work (Option Json) :=
  if (d.change steps).isEmpty then return some existing
  else do
    let now ← now
    showFlow? (← statement (Store.changeFlow tenant id (d.change steps) now))

theorem flowRow_of_managed {st' : State} (h : st'.managed = st.managed) (tenant id : String) :
    st'.store.flowRow tenant id = st.store.flowRow tenant id := by
  have hflows : st'.store.flows = st.store.flows := congrArg State.Managed.flows h
  unfold Store.flowRow
  rw [hflows]

theorem flowRow_map {db : Store} {change : FlowRow → FlowRow} (hid : ∀ g, (change g).id = g.id)
    (htenant : ∀ g, (change g).tenantId = g.tenantId) :
    ({ db with flows := db.flows.map change } : Store).flowRow tenant id = (db.flowRow tenant id).map change := by
  unfold Store.flowRow
  rw [List.find?_map]
  simp only [Function.comp_def, hid, htenant]

variable (hup : st.isUp = true) (hfound : st.store.flowRow tenant id = some f) (hdoc : f.steps = .ok doc)
include hup hfound

theorem run_writeFlow_emptied (h : d.Empties) (existing : Json) (steps : Option Json) :
    (writeFlow tenant id d existing steps).run st = (.error (.refused .missing), st) := by
  have hrefused : Store.changeFlow tenant id (d.change steps) st.now st.store = .error .missing := by
    unfold Store.changeFlow
    rw [hfound]
    dsimp only
    rw [if_pos (FlowDraft.removesNeeded_change.2 h)]
  unfold writeFlow
  rw [if_neg (Bool.eq_false_iff.1 (FlowDraft.not_isEmpty_of_empties h)), Task.run_bind_ok (t := now) rfl]
  exact Task.run_bind_error (run_statement_error hup hrefused)

include hdoc

/-- **What can be written is written**, and nothing else. -/
theorem run_writeFlow (hwrites : d.Writes steps) (h : ¬ d.Empties) :
    ∃ g doc' db, (writeFlow tenant id d (f.shown doc) steps).run st = (.ok (some (g.shown doc')), { st with store := db }) ∧
      d.Changes f g ∧ g.steps = .ok doc' ∧ db.flowRow tenant id = some g ∧
      d.Touches tenant id st.store.flows db.flows ∧ db.calls = st.store.calls ∧ db.lines = st.store.lines := by
  unfold writeFlow
  by_cases hempty : (d.change steps).isEmpty = true
  · refine ⟨f, doc, st.store, ?_, hwrites.changes_self hempty f, hdoc, hfound, ?_, rfl, rfl⟩
    · rw [if_pos hempty]
      rfl
    · refine List.forall₂_same.2 fun g _ => ?_
      split
      · exact hwrites.changes_self hempty g
      · rfl
  · let change (g : FlowRow) : FlowRow := if g.isAskedFor tenant id then (d.change steps).apply st.now g else g
    have hasked : f.isAskedFor tenant id = true := List.find?_some (p := FlowRow.isAskedFor tenant id) hfound
    have hchange : change f = (d.change steps).apply st.now f := if_pos hasked
    have hok : Store.changeFlow tenant id (d.change steps) st.now st.store =
        .ok (some (change f), { st.store with flows := st.store.flows.map change }) := by
      unfold Store.changeFlow
      rw [hfound, hchange]
      dsimp only
      rw [if_neg (fun hremoves => h (FlowDraft.removesNeeded_change.1 hremoves))]
      rfl
    have hsteps : ∃ doc', (change f).steps = .ok doc' := by
      rw [hchange]
      cases steps with
      | none => exact ⟨doc, hdoc⟩
      | some v => exact ⟨v, rfl⟩
    obtain ⟨doc', hdoc'⟩ := hsteps
    refine ⟨change f, doc', { st.store with flows := st.store.flows.map change }, ?_, ?_, hdoc', ?_, ?_, rfl, rfl⟩
    · rw [if_neg hempty, Task.run_bind_ok (t := now) rfl, Task.run_bind_ok (run_statement_ok hup hok)]
      exact Task.run_bind_ok (run_showFlow hdoc' _)
    · rw [hchange]
      exact hwrites.changes_apply _ f
    · rw [flowRow_map, hfound]
      · rfl
      · intro g
        dsimp only [change]
        split <;> rfl
      · intro g
        dsimp only [change]
        split <;> rfl
    · refine List.forall₂_map_right_iff.2 (List.forall₂_same.2 fun g _ => ?_)
      split
      · rename_i hg
        rw [show change g = _ from if_pos hg]
        exact hwrites.changes_apply _ g
      · rename_i hg
        exact if_neg hg

theorem run_updateFlow (d : FlowDraft) : (updateFlow tenant id d).run st =
    ((match d.steps with
      | none => pure none
      | some s => do return some (← prepareSteps s).toJson) >>= writeFlow tenant id d (f.shown doc)).run st := by
  have hflow : (flow? tenant id).run st = (.ok (some (f.shown doc)), st) := by
    unfold flow? query
    rw [Task.run_bind_ok (run_statement_ok hup rfl), hfound]
    exact Task.run_bind_ok (run_showFlow hdoc _)
  unfold updateFlow
  rw [Task.run_bind_ok hflow]
  dsimp only
  cases d.steps with
  | none => rfl
  | some r => exact congrArg (fun t => Task.run t st) (bind_assoc _ _ _).symm

theorem run_updateFlow_unfit {given : Steps} {e : Defect} (hgiven : d.steps = some (.ok given))
    (he : validate given = .error e) : (updateFlow tenant id d).run st = (.error (.definition e), st) := by
  rw [run_updateFlow hup hfound hdoc, hgiven]
  exact Task.run_bind_error (Task.run_bind_error (run_prepareSteps_unfit he st))

/-- **A draft that is fit is written** behind the preparation of its steps. -/
theorem run_updateFlow_fit (hfit : d.Fit) :
    ∃ steps st₁, d.Writes steps ∧ st₁.managed = st.managed ∧
      (updateFlow tenant id d).run st = (writeFlow tenant id d (f.shown doc) steps).run st₁ := by
  rw [run_updateFlow hup hfound hdoc]
  cases hsteps : d.steps with
  | none => exact ⟨none, st, .inl ⟨hsteps, rfl⟩, rfl, rfl⟩
  | some r =>
    obtain ⟨given, rfl, hvalid⟩ := hfit r hsteps
    obtain ⟨written, st₁, hrun, hsame, hmanaged⟩ := run_prepareSteps hvalid st
    refine ⟨some written.toJson, st₁, .inr ⟨given, written, hsteps, rfl, hsame⟩, hmanaged, ?_⟩
    exact Task.run_bind_ok (Task.run_bind_ok hrun)

end Update

end Work

/-! ## The request -/

namespace Web

/-- A request that asks to change a stored flow: it is let in, and the database is there. -/
structure Request.AsksToChange (r : Request) (tenant id : String) (st : State) (f : FlowRow) : Prop where
  route : Route.find r.method r.path = .ok (.managed tenant (.updateFlow id))
  party : ∃ party, authorize st.settings st.now tenant r = .ok party
  admitted : countOf (Traffic.writing.key r.path) st.served < Traffic.writing.perMinute
  up : st.isUp = true
  found : st.store.flowRow tenant id = some f
  legible : ∃ doc, f.steps = .ok doc

/-- What a request that changes a flow is answered, and what becomes of the flows. -/
inductive FlowAnswer (tenant id : String) (d : FlowDraft) (f : FlowRow) (st st' : State) : Reply → Prop where
  /-- The steps are not fit to be saved: what is wrong with them is told. -/
  | unfit {given : Steps} {e : Defect} (hgiven : d.steps = some (.ok given)) (he : validate given = .error e)
    (hflows : st'.store.flows = st.store.flows) : FlowAnswer tenant id d f st st' (.error 400 e.message)
  /-- The database refuses what is written: nothing is told of what went wrong. -/
  | emptied (hfit : d.Fit) (h : d.Empties) (hflows : st'.store.flows = st.store.flows) :
    FlowAnswer tenant id d f st st' .internal
  | made {g : FlowRow} {doc : Json} (hfit : d.Fit) (h : ¬ d.Empties) (hchanges : d.Changes f g) (hdoc : g.steps = .ok doc)
    (hstored : st'.store.flowRow tenant id = some g) (hflows : d.Touches tenant id st.store.flows st'.store.flows) :
    FlowAnswer tenant id d f st st' (.ok (g.shown doc))

theorem FlowAnswer.internal_iff {tenant id : String} {d : FlowDraft} {f : FlowRow} {st st' : State} {reply : Reply}
    (h : FlowAnswer tenant id d f st st' reply) : reply = .internal ↔ d.Fit ∧ d.Empties := by
  have hstatus {reply : Reply} (hne : reply.status ≠ 500) : reply ≠ .internal := fun hsame => hne (congrArg Reply.status hsame)
  cases h with
  | unfit hgiven he =>
    refine iff_of_false (hstatus (Nat.ne_of_beq_eq_false rfl)) fun hfit => ?_
    obtain ⟨given, hsame, hvalid⟩ := hfit.1 _ hgiven
    cases hsame
    rw [he] at hvalid
    cases hvalid
  | emptied hfit h => exact iff_of_true rfl ⟨hfit, h⟩
  | made _ h => exact iff_of_false (hstatus (Nat.ne_of_beq_eq_false rfl)) fun hempties => h hempties.2

/-- **The steps that a request gives** were read. -/
theorem changedFlow_given {fs : List (String × Json)} {d : FlowDraft} (h : changedFlow fs = .ok d) :
    ∀ r ∈ d.steps, ∃ given, r = .ok given := by
  rw [← Checked.value?_eq_some] at h
  simp only [changedFlow, Checked.value?_seq, Option.bind_eq_some_iff, Option.map_eq_some_iff, Checked.value?_map] at h
  obtain ⟨_, ⟨_, ⟨_, ⟨_, ⟨_, -, rfl⟩, _, -, rfl⟩, _, -, rfl⟩, _, -, rfl⟩, steps, -, rfl⟩ := h
  intro r hr
  obtain ⟨given, -, rfl⟩ := Option.map_eq_some_iff.1 hr
  exact ⟨given, rfl⟩

theorem posted_given {p : Posted} {d : FlowDraft} (h : posted changedFlow p = .ok d) :
    ∀ r ∈ d.steps, ∃ given, r = .ok given := by
  unfold posted at h
  split at h
  · cases h
  · cases h
  · rename_i fs
    cases hd : changedFlow fs with
    | ok d' =>
      rw [hd] at h
      cases h
      exact changedFlow_given hd
    | bad issues =>
      rw [hd] at h
      cases h
  · cases h

/-- **A draft is fit or has a defect.** -/
theorem fit_or_unfit {d : FlowDraft} (hgiven : ∀ r ∈ d.steps, ∃ given, r = .ok given) :
    d.Fit ∨ ∃ given e, d.steps = some (.ok given) ∧ validate given = .error e := by
  by_cases hfit : d.Fit
  · exact .inl hfit
  · simp only [FlowDraft.Fit, not_forall] at hfit
    obtain ⟨r, hr, hunfit⟩ := hfit
    obtain ⟨given, rfl⟩ := hgiven r hr
    cases he : validate given with
    | ok u => exact absurd ⟨given, rfl, he⟩ hunfit
    | error e => exact .inr ⟨given, e, hr, he⟩

section Serve

variable {r : Request} {tenant id : String} {st : State} {f : FlowRow} (h : r.AsksToChange tenant id st f) {p : Posted}
  (hp : r.posted = .ok p)
include h hp

theorem run_serve_letIn : ∃ party, (serve r).run st =
    (passed ((posted changedFlow p).map (Command.updateFlow id)) fun c =>
      limited c.traffic r (Task.recover (fun e => return .ofFault e) (c.run tenant party))).run st := by
  obtain ⟨party, hparty⟩ := h.party
  refine ⟨party, ?_⟩
  unfold serve serveManaged
  rw [h.route, hp]
  show Task.run (passing (authorize st.settings st.now tenant r) _) st = _
  rw [hparty]
  rfl

theorem run_serve_refused {issues : List Input.Issue} (hissues : posted changedFlow p = .bad issues) :
    (serve r).run st = (.ok (.refused issues), st) := by
  obtain ⟨party, hserve⟩ := run_serve_letIn h hp
  rw [hserve, hissues]
  rfl

/-- **A change that is accepted** is counted and carried out. -/
theorem run_serve_accepted {d : FlowDraft} (hd : posted changedFlow p = .ok d) :
    ∃ st₁, st₁.managed = st.managed ∧ (serve r).run st =
      (Task.recover (fun e => return .ofFault e) (found .flow (Work.updateFlow tenant id d))).run st₁ := by
  obtain ⟨party, hserve⟩ := run_serve_letIn h hp
  let count := countOf (Traffic.writing.key r.path) st.served + 1
  have hadmit : ( Work.admit .writing r.path).run st =
      (.ok true, { st with served := putEntry (Traffic.writing.key r.path) count st.served }) := by
    show (Except.ok (decide (count ≤ Traffic.writing.perMinute)), _) = _
    rw [decide_eq_true (Nat.succ_le_of_lt h.admitted)]
  refine ⟨{ st with served := putEntry (Traffic.writing.key r.path) count st.served }, rfl, ?_⟩
  rw [hserve, hd]
  exact Task.run_bind_ok hadmit

/-- **A change that is accepted is answered.** -/
theorem serve_answers {d : FlowDraft} (hd : posted changedFlow p = .ok d) :
    ∃ reply st', (serve r).run st = (.ok reply, st') ∧ FlowAnswer tenant id d f st st' reply ∧
      st'.store.calls = st.store.calls ∧ st'.store.lines = st.store.lines := by
  obtain ⟨doc, hdoc⟩ := h.legible
  obtain ⟨st₁, hmanaged, hserve⟩ := run_serve_accepted h hp hd
  have hup : st₁.isUp = true := (congrArg State.Managed.isUp hmanaged).trans h.up
  have hfound : st₁.store.flowRow tenant id = some f := (Work.flowRow_of_managed hmanaged tenant id).trans h.found
  rw [hserve, Task.run_recover]
  rcases fit_or_unfit (posted_given hd) with hfit | ⟨given, e, hgiven, he⟩
  · obtain ⟨steps, st₂, hwrites, hmanaged₂, hrun⟩ := Work.run_updateFlow_fit hup hfound hdoc hfit
    have hmanaged := hmanaged₂.trans hmanaged
    have hup : st₂.isUp = true := (congrArg State.Managed.isUp hmanaged).trans h.up
    have hfound : st₂.store.flowRow tenant id = some f := (Work.flowRow_of_managed hmanaged tenant id).trans h.found
    have hflows : st₂.store.flows = st.store.flows := congrArg State.Managed.flows hmanaged
    have hcalls : st₂.store.calls = st.store.calls := congrArg State.Managed.calls hmanaged
    have hlines : st₂.store.lines = st.store.lines := congrArg State.Managed.lines hmanaged
    by_cases hempties : d.Empties
    · have hwrite := Work.run_writeFlow_emptied hup hfound hempties (f.shown doc) steps
      have hfails : (found .flow (Work.updateFlow tenant id d)).run st₁ = (.error (.refused .missing), st₂) :=
        Task.run_bind_error (hrun.trans hwrite)
      rw [hfails]
      exact ⟨_, st₂, rfl, .emptied hfit hempties hflows, hcalls, hlines⟩
    · obtain ⟨g, doc', db, hwrite, hchanges, hdoc', hstored, htouches, hcalls', hlines'⟩ :=
        Work.run_writeFlow hup hfound hdoc hwrites hempties
      have hmade : (found .flow (Work.updateFlow tenant id d)).run st₁ = (.ok (.ok (g.shown doc')), { st₂ with store := db }) :=
        Task.run_bind_ok (hrun.trans hwrite)
      rw [hmade]
      rw [hflows] at htouches
      exact ⟨_, _, rfl, .made hfit hempties hchanges hdoc' hstored htouches, hcalls'.trans hcalls, hlines'.trans hlines⟩
  · have hfails : (found .flow (Work.updateFlow tenant id d)).run st₁ = (.error (.definition e), st₁) :=
      Task.run_bind_error (Work.run_updateFlow_unfit hup hfound hdoc hgiven he)
    rw [hfails]
    exact ⟨_, st₁, rfl, .unfit hgiven he (congrArg State.Managed.flows hmanaged), congrArg State.Managed.calls hmanaged,
      congrArg State.Managed.lines hmanaged⟩

end Serve

/-- What becomes of a request that asks to change a stored flow. -/
structure FlowUpdate (r : Request) (tenant id : String) (st : State) (f : FlowRow) : Prop where
  /-- Where its document is not one that changes a flow it is turned away, and nothing changes. -/
  turnedAway : ∀ p issues, r.posted = .ok p → posted changedFlow p = .bad issues →
    (serve r).run st = (.ok (.refused issues), st)
  /-- Else it is answered, and changes no more than it says. -/
  answered : ∀ p d, r.posted = .ok p → posted changedFlow p = .ok d →
    ∃ reply st', (serve r).run st = (.ok reply, st') ∧ FlowAnswer tenant id d f st st' reply ∧
      st'.store.calls = st.store.calls ∧ st'.store.lines = st.store.lines
  /-- It fails where it gives as nothing what cannot be without a value, and its steps are fit to be saved, and nowhere
  else. -/
  fails : ∀ p d, r.posted = .ok p → posted changedFlow p = .ok d →
    (((serve r).run st).1 = .ok .internal ↔ d.Fit ∧ d.Empties)

/-- **A change of a flow fails** where it empties what needs a value. -/
theorem flow_change_fails_iff_emptied {r : Request} {tenant id : String} {st : State} {f : FlowRow}
    (h : r.AsksToChange tenant id st f) : FlowUpdate r tenant id st f where
  turnedAway _ _ hp hissues := run_serve_refused h hp hissues
  answered _ _ hp hd := serve_answers h hp hd
  fails _ _ hp hd := by
    obtain ⟨reply, st', hrun, hanswer, -, -⟩ := serve_answers h hp hd
    rw [hrun, ← hanswer.internal_iff]
    exact ⟨fun hsame => Except.ok.inj hsame, fun hsame => congrArg Except.ok hsame⟩

/-- The description of a flow can be given as nothing, and its name cannot. -/
theorem name_given_as_nothing_fails :
    let steps : Json := .arr [.obj [("id", .str "h"), ("type", .str "hangup"), ("config", .obj [])]]
    let f : FlowRow := ⟨"F", "T", "Main line", some "By day", true, false, .ok steps, .utc 0, .utc 0⟩
    let st := { State.holding [] with
      store := { Store.empty with flows := [f] }
      settings := { (State.holding []).settings with apiKey := "key" } }
    let asks (body : String) : Request := ⟨.put, "/api/tenants/T/call-flows/F", "",
      [("host", "localhost"), ("content-type", "application/json"), ("x-api-key", "key")], body⟩
    let unnamed := asks "\x7b\x22name\x22: null\x7d"
    let undescribed := asks "\x7b\x22description\x22: null\x7d"
    unnamed.AsksToChange "T" "F" st f ∧ undescribed.AsksToChange "T" "F" st f ∧
      ((serve unnamed).run st).1 = .ok .internal ∧
      ∃ g, ((serve undescribed).run st).2.store.flowRow "T" "F" = some g ∧ g.description = none ∧ g.name = "Main line" := by
  intro steps f st asks unnamed undescribed
  have hfound : st.store.flowRow "T" "F" = some f := List.find?_cons_of_pos (by decide)
  have hroute : Route.find .put "/api/tenants/T/call-flows/F" = .ok (.managed "T" (.updateFlow "F")) := rfl
  have hasks (body : String) : (asks body).AsksToChange "T" "F" st f :=
    ⟨hroute, ⟨.service, rfl⟩, Nat.succ_pos _, rfl, hfound, ⟨steps, rfl⟩⟩
  let d : FlowDraft := ⟨some none, none, none, none, none⟩
  let d' : FlowDraft := ⟨none, some none, none, none, none⟩
  have hunnamed : FlowUpdate unnamed "T" "F" st f := flow_change_fails_iff_emptied (hasks _)
  have hundescribed : FlowUpdate undescribed "T" "F" st f := flow_change_fails_iff_emptied (hasks _)
  have hheld : (asks "").holdsDocument = true := by decide +kernel
  have hposted {body : String} {v : Json} (hbody : body ≠ "") (hread : Json.parseMessage body = .ok v) :
      (asks body).posted = .ok (.document v) := by
    show (if body = "" then _ else if (asks "").holdsDocument then (Json.parseMessage body).map Posted.document else _) = _
    rw [if_neg hbody, if_pos hheld, hread]
    rfl
  have hd : posted changedFlow (.document (.obj [("name", .null)])) = .ok d := rfl
  have hd' : posted changedFlow (.document (.obj [("description", .null)])) = .ok d' := rfl
  refine ⟨hasks _, hasks _, ?_, ?_⟩
  · exact (hunnamed.fails _ d (hposted (by decide) (by decide +kernel)) hd).2 ⟨fun _ h => (nomatch h), .inl rfl⟩
  · obtain ⟨reply, st', hrun, hanswer, -, -⟩ :=
      hundescribed.answered _ d' (hposted (by decide) (by decide +kernel)) hd'
    rw [hrun]
    cases hanswer with
    | unfit hgiven => cases hgiven
    | emptied _ h => exact absurd h (by simp [d', FlowDraft.Empties])
    | made _ _ hchanges _ hstored => exact ⟨_, hstored, hchanges.description, hchanges.name⟩


end Web

end Switchboard
