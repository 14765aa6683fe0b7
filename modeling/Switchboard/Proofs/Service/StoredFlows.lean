import Switchboard.Proofs.Flow.Speech
import Switchboard.Proofs.Service.Asides
import Switchboard.Web.Management
/-!
# What is stored of flows

A flow is stored as the steps that it was given, with speech attached, as they are written (`FlowRow.Stores`).  Creating,
changing and copying flows keep this of every stored flow (`FlowsAfter.sound`), whatever others do at their pauses.  So a
stored flow is loaded for a call as it was given, settled and with speech; only where a step of it lacks settings that its
type needs is it refused (`stored_flow_loads_unless_settings_lack`).
-/
namespace Switchboard

open Switchboard.Flow (Steps ReadFault validate withoutSpeech settled flat AllFit)

/-! ## What flows are given -/

def FlowDraft.given (d : FlowDraft) : Except ReadFault Steps := d.steps.getD (.ok [])

/-- A draft whose steps were read from a document. -/
def FlowDraft.IsRead (d : FlowDraft) : Prop := ∀ r ∈ d.steps, ∃ v, r = Steps.read v

theorem FlowDraft.IsRead.given_eq {d : FlowDraft} (h : d.IsRead) : ∃ v, d.given = Steps.read v := by
  unfold FlowDraft.given
  cases hs : d.steps with
  | none => exact ⟨.arr [], rfl⟩
  | some r => exact h r hs

theorem FlowDraft.IsRead.allFit {d : FlowDraft} (h : d.IsRead) {given : Steps} (hg : d.given = .ok given) :
    AllFit given := by
  obtain ⟨v, hv⟩ := h.given_eq
  exact Flow.fits_of_read (hv.symm.trans hg)

theorem gives_readPosted : Input.Gives Steps.readPosted fun steps => ∃ v, Steps.read v = .ok steps :=
  fun v _ h => ⟨v, Flow.read_of_readPosted (Input.Checked.value?_eq_some.mp h)⟩

/-- **What is posted to make a flow** is read from a document. -/
theorem Web.newFlow_isRead {fs : List (String × Json)} {d : FlowDraft} (h : Web.newFlow fs = .ok d) : d.IsRead := by
  rw [← Input.Checked.value?_eq_some] at h
  simp only [Web.newFlow, Input.Checked.value?_seq, Option.bind_eq_some_iff, Option.map_eq_some_iff] at h
  obtain ⟨build, hbuild, steps, hsteps, rfl⟩ := h
  obtain ⟨v, hv⟩ := gives_readPosted.field ⟨.arr [], rfl⟩ hsteps
  simp only [Input.Checked.value?_map, Option.map_eq_some_iff] at hbuild
  obtain ⟨_, ⟨_, ⟨_, ⟨_, -, rfl⟩, _, -, rfl⟩, _, -, rfl⟩, _, -, rfl⟩ := hbuild
  rintro r ⟨⟩
  exact ⟨v, hv.symm⟩

/-- **What is posted to change a flow** is read from a document. -/
theorem Web.changedFlow_isRead {fs : List (String × Json)} {d : FlowDraft} (h : Web.changedFlow fs = .ok d) : d.IsRead := by
  have hgives : Input.Gives (fun v => (Input.nullable Steps.readPosted v).map some)
      fun o => ∀ steps, o.bind id = some steps → ∃ v, Steps.read v = .ok steps := by
    intro v o ho steps hsteps
    change (some <$> Input.nullable Steps.readPosted v).value? = some o at ho
    rw [Input.Checked.value?_map, Option.map_eq_some_iff] at ho
    obtain ⟨a, ha, rfl⟩ := ho
    exact gives_readPosted.nullable v a ha steps hsteps
  rw [← Input.Checked.value?_eq_some] at h
  simp only [Web.changedFlow, Input.Checked.value?_seq, Option.bind_eq_some_iff, Option.map_eq_some_iff] at h
  obtain ⟨build, hbuild, steps, hsteps, rfl⟩ := h
  have hread := hgives.field (by simp) hsteps
  simp only [Input.Checked.value?_map, Option.map_eq_some_iff] at hbuild
  obtain ⟨_, ⟨_, ⟨_, ⟨_, -, rfl⟩, _, -, rfl⟩, _, -, rfl⟩, _, -, rfl⟩ := hbuild
  intro r hr
  obtain ⟨given, hgiven, rfl⟩ := Option.map_eq_some_iff.mp hr
  obtain ⟨v, hv⟩ := hread given hgiven
  exact ⟨v, hv.symm⟩

/-! ## What is stored -/

/-- A flow that is stored with given steps: the steps with speech attached, as they are written. -/
def FlowRow.Stores (f : FlowRow) (given : Steps) : Prop :=
  ∃ steps, f.steps = .ok steps.toJson ∧ withoutSpeech steps = withoutSpeech given

/-- Every stored flow is stored with steps of a kind. -/
def State.FlowsFrom (G : Steps → Prop) (st : State) : Prop := ∀ f ∈ st.store.flows, ∃ given, G given ∧ f.Stores given

theorem State.FlowsFrom.mono {G G' : Steps → Prop} {st : State} (h : st.FlowsFrom G) (hG : ∀ given, G given → G' given) :
    st.FlowsFrom G' := by
  intro f hf
  obtain ⟨given, hg, hstores⟩ := h f hf
  exact ⟨given, hG given hg, hstores⟩

abbrev flowTerms (G : Steps → Prop) : Terms State State :=
  State.terms (fun st st' => st.FlowsFrom G → st'.FlowsFrom G) (fun st st' => st.FlowsFrom G → st'.FlowsFrom G)

theorem Task.Tame.upholds_flowTerms {α : Type} {t : Work α} (h : t.Tame) {G : Steps → Prop} (st : State) :
    t.Upholds (flowTerms G) (fun _ _ => True) st :=
  h.upholds (fun _ _ haside hs f hf => hs f (haside.flows ▸ hf)) st

namespace Work

variable {G : Steps → Prop} {α : Type}

/-- A statement behind which the steps of each flow are those of an earlier one or are of the kind. -/
theorem upholds_storing {f : Store → Except StoreFault (α × Store)} {st : State}
    (hf : ∀ a db, f st.store = .ok (a, db) → ∀ r ∈ db.flows,
      (∃ r' ∈ st.store.flows, r'.steps = r.steps) ∨ ∃ given, G given ∧ r.Stores given) :
    (statement f).Upholds (flowTerms G) (fun _ _ => True) st := by
  refine upholds_statement (fun a db h => ⟨_, rfl, fun hs r hr => ?_, fun _ _ => trivial⟩) trivial fun _ => trivial
  rcases hf a db h r hr with ⟨r', hr', heq⟩ | hnew
  · obtain ⟨given, hg, steps, hsteps, hsame⟩ := hs r' hr'
    exact ⟨given, hg, steps, heq ▸ hsteps, hsame⟩
  · exact hnew

/-! ## Making, changing and copying flows -/

theorem tame_storedSteps (f : FlowRow) : (storedSteps f).Tame := Task.Tame.ofExcept _

theorem tame_showFlow (f : FlowRow) : (showFlow f).Tame :=
  ((tame_storedSteps f).bind fun _ => Task.Tame.pure _).bind fun _ => Task.Tame.pure _

theorem tame_showFlow? : ∀ f : Option FlowRow, (showFlow? f).Tame
  | none => Task.Tame.pure _
  | some f => (tame_showFlow f).bind fun _ => Task.Tame.pure _

theorem tame_flow? (tenant id : String) : (flow? tenant id).Tame := (tame_query _).bind tame_showFlow?

theorem eq_ok_of_mapError {ε ε' : Type} {g : ε → ε'} {r : Except ε α} {a : α} (h : r.mapError g = .ok a) : r = .ok a := by
  cases r <;> cases h
  rfl

/-- Steps that are given, checked and with speech. -/
def Prepared (raw : Except ReadFault Steps) (r : Except Fault Steps) (_ : State) : Prop :=
  ∀ steps, r = .ok steps → ∃ given, raw = .ok given ∧ validate given = .ok () ∧ withoutSpeech steps = withoutSpeech given

theorem upholds_prepareSteps (raw : Except ReadFault Steps) (st : State) :
    (prepareSteps raw).Upholds (flowTerms G) (Prepared raw) st := by
  have hfault {e : Fault} {st : State} : Prepared raw (.error e) st := fun _ h => nomatch h
  have hspeech (text : String) (voice : Flow.Voice) (st : State) :=
    (tame_synthesizePrompt text voice).upholds_flowTerms (G := G) st
  unfold prepareSteps
  refine Task.upholds_ofExcept_bind (fun given hraw => ?_) fun _ _ => hfault
  refine Task.upholds_ofExcept_bind (fun _ hvalid => ?_) fun _ _ => hfault
  refine Task.Upholds.bind (fun p _ hp => ?_) (fun _ _ _ => hfault) (Flow.upholds_attachAudio hspeech given st)
  refine Task.upholds_pure.mpr fun steps hsteps => ?_
  cases hsteps
  exact ⟨given, eq_ok_of_mapError hraw, eq_ok_of_mapError hvalid, hp p rfl⟩

/-- **A flow that is made** is stored with the steps that it is given. -/
theorem upholds_createFlow {tenant : String} {d : FlowDraft}
    (hG : ∀ given, d.given = .ok given → validate given = .ok () → G given) (st : State) :
    (createFlow tenant d).Upholds (flowTerms G) (fun _ _ => True) st := by
  unfold createFlow
  refine Task.Upholds.bind (fun steps st hsteps => ?_) (fun _ _ _ => trivial) (upholds_prepareSteps _ st)
  obtain ⟨given, hgiven, hvalid, hsame⟩ := hsteps steps rfl
  refine Task.Upholds.bind (fun now st _ => ?_) (fun _ _ _ => trivial) (tame_now.upholds_flowTerms st)
  split
  · exact Task.upholds_fail.mpr trivial
  · refine Task.Upholds.bind (fun row st _ => (tame_showFlow row).upholds_flowTerms st) (fun _ _ _ => trivial)
      (upholds_storing fun a db h r hr => ?_)
    split at h
    · cases h
      rcases List.mem_append.mp hr with hold | hnew
      · exact .inl ⟨r, hold, rfl⟩
      · cases List.mem_singleton.mp hnew
        exact .inr ⟨given, hG given hgiven hvalid, steps, rfl, hsame⟩
    · cases h

/-- A flow's steps that are to be stored come from steps of the kind. -/
def Storable (G : Steps → Prop) (v : Json) : Prop :=
  ∃ given steps : Steps, G given ∧ v = steps.toJson ∧ withoutSpeech steps = withoutSpeech given

theorem changeFlow_steps {tenant id : String} {c : Store.FlowChange} {now : Time.Instant} {db db' : Store} {row : Option FlowRow}
    (hc : ∀ v ∈ c.steps, Storable G v) (h : Store.changeFlow tenant id c now db = .ok (row, db')) :
    ∀ r ∈ db'.flows, (∃ r' ∈ db.flows, r'.steps = r.steps) ∨ ∃ given, G given ∧ r.Stores given := by
  intro r hr
  unfold Store.changeFlow at h
  split at h
  · cases h
    exact .inl ⟨r, hr, rfl⟩
  · split at h
    · cases h
    · cases h
      obtain ⟨g, hg, rfl⟩ := List.mem_map.mp hr
      split
      · cases hs : c.steps with
        | none => exact .inl ⟨g, hg, by simp [Store.FlowChange.apply, hs]⟩
        | some v =>
          obtain ⟨given, written, hgiven, rfl, hsame⟩ := hc v hs
          exact .inr ⟨given, hgiven, written, by simp [Store.FlowChange.apply, hs], hsame⟩
      · exact .inl ⟨g, hg, rfl⟩

theorem upholds_updateFlow {tenant id : String} {d : FlowDraft}
    (hG : ∀ given, d.given = .ok given → validate given = .ok () → G given) (st : State) :
    (updateFlow tenant id d).Upholds (flowTerms G) (fun _ _ => True) st := by
  unfold updateFlow
  refine Task.Upholds.bind (fun existing st _ => ?_) (fun _ _ _ => trivial) ((tame_flow? tenant id).upholds_flowTerms st)
  have hwrite (existing : Json) (steps : Option Json) (hsteps : ∀ v ∈ steps, Storable G v) (st : State) :
      (if (⟨d.name, d.description, d.isActive, d.records, steps⟩ : Store.FlowChange).isEmpty then pure (some existing)
        else do
          let now ← now
          showFlow? (← statement (Store.changeFlow tenant id ⟨d.name, d.description, d.isActive, d.records, steps⟩ now)) :
        Work (Option Json)).Upholds (flowTerms G) (fun _ _ => True) st := by
    split
    · exact Task.upholds_pure.mpr trivial
    · refine Task.Upholds.bind (fun now st _ => ?_) (fun _ _ _ => trivial) (tame_now.upholds_flowTerms st)
      exact Task.Upholds.bind (fun row st _ => (tame_showFlow? row).upholds_flowTerms st) (fun _ _ _ => trivial)
        (upholds_storing fun a db h => changeFlow_steps hsteps h)
  split
  · exact Task.upholds_pure.mpr trivial
  · split
    · exact hwrite _ none (fun _ h => nomatch h) st
    · rename_i raw hraw
      refine Task.Upholds.bind (fun steps st hsteps => ?_) (fun _ _ _ => trivial) (upholds_prepareSteps raw st)
      obtain ⟨given, hgiven, hvalid, hsame⟩ := hsteps steps rfl
      refine hwrite _ (some steps.toJson) (fun v hv => ?_) st
      cases hv
      exact ⟨given, steps, hG given (by rw [FlowDraft.given, hraw]; exact hgiven) hvalid, rfl, hsame⟩

theorem upholds_duplicateFlow {tenant id : String} {st : State} (hst : st.FlowsFrom G) :
    (duplicateFlow tenant id).Upholds (flowTerms G) (fun _ _ => True) st := by
  unfold duplicateFlow
  have hrow : (query (Store.flowRow tenant id)).Upholds (flowTerms G)
      (fun r _ => ∀ f, r = .ok (some f) → ∃ given, G given ∧ f.Stores given) st := by
    refine upholds_statement (fun row db h => ?_) (fun _ h => nomatch h) fun _ _ h => nomatch h
    cases h
    refine ⟨st, rfl, fun hs => hs, fun _ _ f hf => ?_⟩
    exact hst f (List.mem_of_find?_eq_some (Except.ok.inj hf))
  refine Task.Upholds.bind (fun row st hf => ?_) (fun _ _ _ => trivial) hrow
  split
  · exact Task.upholds_fail.mpr trivial
  · rename_i f
    obtain ⟨given, hgiven, steps, hsteps, hsame⟩ := hf f rfl
    have hdocument : storedSteps f = pure steps.toJson := by rw [storedSteps, hsteps]; rfl
    rw [hdocument, pure_bind]
    refine Task.Upholds.bind (fun now st _ => ?_) (fun _ _ _ => trivial) (tame_now.upholds_flowTerms st)
    refine Task.Upholds.bind (fun row st _ => (tame_showFlow row).upholds_flowTerms st) (fun _ _ _ => trivial)
      (upholds_storing fun a db h r hr => ?_)
    cases h
    rcases List.mem_append.mp hr with hold | hnew
    · exact .inl ⟨r, hold, rfl⟩
    · cases List.mem_singleton.mp hnew
      refine .inr ⟨given, hgiven, steps, ?_, hsame⟩
      cases steps <;> rfl

end Work

/-! ## Sequences of requests -/

/-- The states that requests about flows lead to, with the drafts that they brought.  Each is served alone; meanwhile
anything else may happen that stores no flow. -/
inductive FlowsAfter : List FlowDraft → State → Prop
  | start {st : State} (h : st.store.flows = []) : FlowsAfter [] st
  | create {ds : List FlowDraft} {st : State} (h : FlowsAfter ds st) (tenant : String) (d : FlowDraft) (hd : d.IsRead) :
      FlowsAfter (d :: ds) ((Work.createFlow tenant d).run st).2
  | update {ds : List FlowDraft} {st : State} (h : FlowsAfter ds st) (tenant id : String) (d : FlowDraft) (hd : d.IsRead) :
      FlowsAfter (d :: ds) ((Work.updateFlow tenant id d).run st).2
  | duplicate {ds : List FlowDraft} {st : State} (h : FlowsAfter ds st) (tenant id : String) :
      FlowsAfter ds ((Work.duplicateFlow tenant id).run st).2
  | meanwhile {ds : List FlowDraft} {st st' : State} (h : FlowsAfter ds st) (hsub : st'.store.flows ⊆ st.store.flows) :
      FlowsAfter ds st'

/-- Steps that one of some drafts brought and that are fit to be saved. -/
def Accepted (ds : List FlowDraft) (given : Steps) : Prop :=
  (∃ d ∈ ds, d.given = .ok given) ∧ AllFit given ∧ validate given = .ok ()

theorem Accepted.cons {ds : List FlowDraft} {given : Steps} (h : Accepted ds given) (d : FlowDraft) :
    Accepted (d :: ds) given := by
  obtain ⟨⟨d', hd', hg⟩, h⟩ := h
  exact ⟨⟨d', List.mem_cons_of_mem d hd', hg⟩, h⟩

/-- A request that keeps what is stored of a kind, run alone, leaves what is stored of the kind. -/
theorem Task.Upholds.flowsFrom {α : Type} {G : Steps → Prop} {t : Work α} {st : State}
    (ht : t.Upholds (flowTerms G) (fun _ _ => True) st) (hst : st.FlowsFrom G) : (t.run st).2.FlowsFrom G := by
  obtain ⟨st', hrun, hpath, -⟩ := ht.run fun _ h => h
  rw [← show st' = (t.run st).2 from hrun]
  clear ht hrun
  induction hpath with
  | refl => exact hst
  | tail _ hstep ih => exact hstep ih

/-- **Every stored flow is one that was accepted**, behind any sequence of requests. -/
theorem FlowsAfter.sound {ds : List FlowDraft} {st : State} (h : FlowsAfter ds st) : st.FlowsFrom (Accepted ds) := by
  induction h with
  | start h => exact fun f hf => by rw [h] at hf; cases hf
  | create _ tenant d hd ih =>
    refine (Work.upholds_createFlow (fun given hg hvalid => ?_) _).flowsFrom (ih.mono fun given hg => hg.cons d)
    exact ⟨⟨d, List.mem_cons_self, hg⟩, hd.allFit hg, hvalid⟩
  | update _ tenant id d hd ih =>
    refine (Work.upholds_updateFlow (fun given hg hvalid => ?_) _).flowsFrom (ih.mono fun given hg => hg.cons d)
    exact ⟨⟨d, List.mem_cons_self, hg⟩, hd.allFit hg, hvalid⟩
  | duplicate _ tenant id ih => exact (Work.upholds_duplicateFlow ih).flowsFrom ih
  | meanwhile _ hsub ih => exact fun f hf => ih f (hsub hf)

/-! ## Loading what is stored -/

theorem FlowRow.Stores.load {f : FlowRow} {given : Steps} (h : f.Stores given) (hfit : AllFit given)
    (hvalid : validate given = .ok ()) :
    ∃ doc, f.steps = .ok doc ∧
      ((∀ s ∈ flat given, s.lacksSettings = false) →
        ∃ loaded, Steps.read doc = .ok loaded ∧ validate loaded = .ok () ∧
          withoutSpeech loaded = withoutSpeech (settled given)) ∧
      ((∃ s ∈ flat given, s.lacksSettings = true) → ∃ issues, Steps.read doc = .error (.defects issues)) := by
  obtain ⟨steps, hsteps, hsame⟩ := h
  have hfit : AllFit steps := by rw [← Flow.allFit_withoutSpeech, hsame]; exact (Flow.allFit_withoutSpeech given).mpr hfit
  have hlack (P : Bool → Prop) : (∀ s ∈ flat steps, P s.lacksSettings) ↔ ∀ s ∈ flat given, P s.lacksSettings := by
    have heach (l : Steps) : (∀ s ∈ flat l, P s.lacksSettings) ↔ ∀ s ∈ flat (withoutSpeech l), P s.lacksSettings := by
      rw [withoutSpeech, Flow.flat_mapSteps Flow.keepsTree_withoutSpeech, List.forall_mem_map]
      simp only [Flow.lacksSettings_withoutSpeech]
    rw [heach steps, hsame, ← heach given]
  refine ⟨steps.toJson, hsteps, fun hset => ?_, fun hlacks => ?_⟩
  · refine ⟨settled steps, Flow.load_written hfit ((hlack (· = false)).mpr hset), ?_, ?_⟩
    · rw [settled, Flow.validate_mapSteps Flow.keepsTree_settle,
        ← Flow.validate_mapSteps Flow.keepsTree_withoutSpeech]
      show validate (withoutSpeech steps) = .ok ()
      rw [hsame, withoutSpeech, Flow.validate_mapSteps Flow.keepsTree_withoutSpeech]
      exact hvalid
    · rw [← Flow.settled_withoutSpeech, hsame, Flow.settled_withoutSpeech]
  · obtain ⟨s, hs, hl⟩ := hlacks
    refine Flow.load_written_of_lacking hfit ?_
    by_contra hall
    exact ((hlack (· ≠ true)).mp (fun s hs ht => hall ⟨s, hs, ht⟩)) s hs hl

theorem Work.run_lineFlow? {st : State} {line : String} {l : LineRow} {f : FlowRow} {doc : Json} (hup : st.isUp = true)
    (hline : st.store.activeLine line = some (l, some f)) (hdoc : f.steps = .ok doc) :
    ((Work.lineFlow? line).run st).1 =
      ((Steps.read doc).mapError Fault.steps).map fun steps =>
        some ⟨l.id, l.tenantId, l.phoneNumber, some f.id, some f.name, f.isActive, f.records, steps⟩ := by
  have hquery : (Work.query (Store.activeLine line)).run st = (.ok (some (l, some f)), st) := by
    rw [Work.query, Work.run_statement_ok hup rfl, hline]
  unfold Work.lineFlow?
  rw [Task.run_bind_ok hquery]
  have hsteps : Work.storedSteps f = pure doc := by rw [Work.storedSteps, hdoc]; rfl
  dsimp only
  rw [hsteps, pure_bind]
  cases hread : Steps.read doc with
  | ok steps => rfl
  | error e => rfl

/-- **A stored flow is loaded unless a step of it lacks settings.**  Behind any sequence of requests that make, change and
copy flows every stored flow comes from steps that a draft brought and that are fit to be saved.  Where each of these has
the settings that its type needs, what is stored is read back: the steps as they were given, settled and with speech, and
they are fit to be saved.  Where one has not, what is stored is refused.  A line that runs the flow gives a call what is
read back. -/
theorem stored_flow_loads_unless_settings_lack {ds : List FlowDraft} {st : State} (h : FlowsAfter ds st) {f : FlowRow}
    (hf : f ∈ st.store.flows) :
    ∃ given doc, (∃ d ∈ ds, d.given = .ok given) ∧ validate given = .ok () ∧ f.steps = .ok doc ∧
      ((∀ s ∈ flat given, s.lacksSettings = false) →
        ∃ loaded, Steps.read doc = .ok loaded ∧ validate loaded = .ok () ∧
          withoutSpeech loaded = withoutSpeech (settled given)) ∧
      ((∃ s ∈ flat given, s.lacksSettings = true) → ∃ issues, Steps.read doc = .error (.defects issues)) ∧
      ∀ line l, st.isUp = true → st.store.activeLine line = some (l, some f) →
        ((Work.lineFlow? line).run st).1 =
          ((Steps.read doc).mapError Fault.steps).map fun steps =>
            some ⟨l.id, l.tenantId, l.phoneNumber, some f.id, some f.name, f.isActive, f.records, steps⟩ := by
  obtain ⟨given, ⟨hd, hfit, hvalid⟩, hstores⟩ := h.sound f hf
  obtain ⟨doc, hdoc, hloads, hrefused⟩ := hstores.load hfit hvalid
  exact ⟨given, doc, hd, hvalid, hdoc, hloads, hrefused, fun line l hup hline => Work.run_lineFlow? hup hline hdoc⟩

/-- A prompt that says nothing: a step without settings. -/
def greetingWithoutSettings : Json := .arr [.obj [("id", .str "g1"), ("type", .str "greeting")]]

/-- A flow of one greeting without settings is accepted, and refused when it is loaded. -/
theorem greeting_without_settings_is_stored_and_refused :
    ∃ st f doc issues, FlowsAfter [⟨some (some "Main"), none, none, none, some (Steps.read greetingWithoutSettings)⟩] st ∧
      f ∈ st.store.flows ∧ f.steps = .ok doc ∧ Steps.read doc = .error (.defects issues) := by
  let d : FlowDraft := ⟨some (some "Main"), none, none, none, some (Steps.read greetingWithoutSettings)⟩
  let st := ((Work.createFlow "T1" d).run (State.holding [])).2
  let f : FlowRow :=
    ⟨Store.idAfter 0, "T1", "Main", none, true, false, .ok (Steps.toJson [⟨"g1", none, .bare .greeting⟩]), .utc 0, .utc 0⟩
  have hafter : FlowsAfter [d] st :=
    .create (.start rfl) "T1" d fun r hr => ⟨greetingWithoutSettings, (Option.some.inj hr).symm⟩
  have hf : f ∈ st.store.flows := by
    have hflows : st.store.flows = [f] := rfl
    rw [hflows]
    exact List.mem_singleton_self f
  obtain ⟨given, doc, ⟨d', hd', hgiven⟩, -, hdoc, -, hrefused, -⟩ :=
    stored_flow_loads_unless_settings_lack hafter hf
  cases List.mem_singleton.mp hd'
  have hbare : given = [⟨"g1", none, .bare .greeting⟩] := Except.ok.inj (hgiven.symm.trans rfl)
  obtain ⟨issues, hissues⟩ := hrefused ⟨⟨"g1", none, .bare .greeting⟩, by rw [hbare]; exact List.mem_singleton_self _, rfl⟩
  exact ⟨st, f, doc, issues, hafter, hf, hdoc, hissues⟩

end Switchboard
