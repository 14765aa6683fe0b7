import Switchboard.Flow.Audio
import Switchboard.Proofs.Flow.Bodies
import Switchboard.Proofs.Flow.Reading
import Switchboard.Proofs.Flow.Rereading
import Switchboard.Proofs.Service.Interleaving
/-!
# Attaching speech

Before a flow is saved its prompts are read aloud.  Whatever comes of that, and whatever others do meanwhile, a flow that
gained speech differs from the one that was given in the addresses of the speech only (`upholds_attachAudio`).  What is
said of a flow without its speech (that it fits, that it is fit to be saved, that its steps have settings) is therefore said
of the flow that is stored.
-/
namespace Switchboard.Flow

/-! ## Flows without speech -/

def Message.withoutSpeech (m : Message) : Message := { m with generatedAudioUrl := none }

/-- A body whose prompts have no speech. -/
def Body.withoutSpeech : Body → Body
  | .greeting m => .greeting m.withoutSpeech
  | .menu p options invalid => .menu { p with message := p.message.withoutSpeech } options invalid
  | .keypadEntry k => .keypadEntry { k with message := k.message.withoutSpeech }
  | .voicemail v => .voicemail { v with greeting := v.greeting.map Message.withoutSpeech }
  | .hangup m => .hangup (m.map Message.withoutSpeech)
  | b => b

/-- A flow whose prompts have no speech. -/
def withoutSpeech (steps : Steps) : Steps := mapSteps Body.withoutSpeech steps

theorem keepsTree_withoutSpeech : KeepsTree Body.withoutSpeech where
  type? b := by cases b <;> rfl
  lists b := by cases b <;> rfl

theorem fits_withoutSpeech (b : Body) : (b.mapNested Body.withoutSpeech).withoutSpeech.Fits ↔ b.Fits := by
  cases b with
  | menu p options invalid =>
    simp only [Body.mapNested, Body.withoutSpeech, Body.Fits, MenuPrompt.Fits, mapOptions_eq, List.length_map,
      List.forall_mem_map]
  | schedule z branches fallback =>
    simp only [Body.mapNested, Body.withoutSpeech, Body.Fits, mapBranches_eq, List.forall_mem_map]
  | _ => exact Iff.rfl

theorem allFit_withoutSpeech (steps : Steps) : AllFit (withoutSpeech steps) ↔ AllFit steps := by
  rw [AllFit, AllFit, withoutSpeech, flat_mapSteps keepsTree_withoutSpeech, List.forall_mem_map]
  refine forall₂_congr fun s _ => ?_
  obtain ⟨id, label, body⟩ := s
  exact and_congr Iff.rfl (fits_withoutSpeech body)

theorem lacksSettings_withoutSpeech (s : Step) : (s.mapBody Body.withoutSpeech).lacksSettings = s.lacksSettings := by
  obtain ⟨id, label, body⟩ := s
  cases body <;> rfl

/-- **Speech and settings do not meet**: a flow is settled the same with speech and without. -/
theorem settled_withoutSpeech (steps : Steps) : settled (withoutSpeech steps) = withoutSpeech (settled steps) := by
  refine mapSteps_comm (fun b hb => ?_) steps
  cases b with
  | menu p options invalid =>
    obtain ⟨hos, hinvalid⟩ := (forall_menu_children (fun l => mapSteps Body.settle (mapSteps Body.withoutSpeech l) =
      mapSteps Body.withoutSpeech (mapSteps Body.settle l)) p options invalid).mp hb
    simp only [Body.mapNested, Body.withoutSpeech, Body.settle, mapOptions_eq, List.map_map, hinvalid, Body.menu.injEq,
      and_true, true_and]
    refine List.map_congr_left fun o ho => ?_
    simp only [Function.comp_apply, hos o ho]
  | schedule z branches fallback =>
    obtain ⟨hbs, hfallback⟩ := (forall_schedule_children (fun l =>
      mapSteps Body.settle (mapSteps Body.withoutSpeech l) = mapSteps Body.withoutSpeech (mapSteps Body.settle l))
      z branches fallback).mp hb
    simp only [Body.mapNested, Body.withoutSpeech, Body.settle, mapBranches_eq, List.map_map, hfallback,
      Body.schedule.injEq, and_true, true_and]
    refine List.map_congr_left fun b hb => ?_
    simp only [Function.comp_apply, hbs b hb]
  | bare t => cases t <;> rfl
  | unknown name c => cases c <;> rfl
  | _ => rfl

/-! ## Attaching -/

section Attaching

variable {σ ε ω : Type} {c : Terms σ ω} {synthesize : Synthesizer (Task σ ε)}
  (hs : ∀ text voice w, (synthesize text voice).Upholds c (fun _ _ => True) w)

/-- What was attached to is as it was, seen through `see`. -/
def Same {α β : Type} (see : α → β) (before : α) (r : Except ε (α × Nat)) (_ : ω) : Prop :=
  ∀ p, r = .ok p → see p.1 = see before

theorem upholds_same {α β : Type} {see : α → β} {before : α} {p : α × Nat} {w : ω} (h : see p.1 = see before) :
    (pure p : Task σ ε (α × Nat)).Upholds c (Same see before) w :=
  Task.upholds_pure.mpr fun q hq => by cases hq; exact h

theorem same_error {α β : Type} {see : α → β} {before : α} {e : ε} {w : ω} : Same see before (.error e) w :=
  fun _ hq => nomatch hq

/-- Something whose part was attached to, put together again. -/
theorem upholds_attach_part {α β γ δ : Type} {t : Task σ ε (α × Nat)} {before : α} {see : α → β} (build : α → γ)
    (see' : γ → δ) (hsee : ∀ a, see a = see before → see' (build a) = see' (build before)) {w : ω}
    (ht : t.Upholds c (Same see before) w) :
    (do let (a, n) ← t; return (build a, n)).Upholds c (Same see' (build before)) w := by
  refine Task.Upholds.bind (fun p _ hp => ?_) (fun _ _ _ => same_error) ht
  exact upholds_same (hsee p.1 (hp p rfl))

/-- A body as it is without speech, its own and that of the steps below it. -/
abbrev Body.silent (b : Body) : Body := (b.mapNested Body.withoutSpeech).withoutSpeech

include hs in
theorem upholds_attach_message (m : Message) (w : ω) :
    (m.attach synthesize).Upholds c (Same Message.withoutSpeech m) w := by
  unfold Message.attach
  split
  · refine Task.Upholds.bind (fun url _ _ => ?_) (fun _ _ _ => same_error) (hs _ _ w)
    split
    · exact upholds_same rfl
    · exact upholds_same rfl
  · exact upholds_same rfl

include hs in
theorem upholds_attachOption : ∀ (m : Option Message) (w : ω),
    (attachOption synthesize m).Upholds c (Same (Option.map Message.withoutSpeech) m) w
  | none, _ => upholds_same rfl
  | some m, w => upholds_attach_part some (Option.map Message.withoutSpeech) (fun _ ha => congrArg some ha)
      (upholds_attach_message hs m w)

theorem upholds_attachOptions {options : List MenuOption}
    (h : ∀ o ∈ options, ∀ w, (attachSteps synthesize o.steps).Upholds c (Same withoutSpeech o.steps) w) (w : ω) :
    (attachOptions synthesize options).Upholds c (Same (mapOptions Body.withoutSpeech) options) w := by
  induction options generalizing w with
  | nil => exact upholds_same rfl
  | cons o rest ih =>
    obtain ⟨digit, label, steps⟩ := o
    obtain ⟨ho, hrest⟩ := List.forall_mem_cons.mp h
    rw [attachOptions]
    refine Task.Upholds.bind (fun p w₁ hp => ?_) (fun _ _ _ => same_error) (ho w)
    refine Task.Upholds.bind (fun q _ hq => ?_) (fun _ _ _ => same_error) (ih hrest w₁)
    have hsteps := hp p rfl
    have hmore := hq q rfl
    refine upholds_same ?_
    rw [mapOptions, mapOptions, hmore]
    exact congrArg (fun l => MenuOption.mk digit label l :: _) hsteps

theorem upholds_attachBranches {branches : List Branch}
    (h : ∀ b ∈ branches, ∀ w, (attachSteps synthesize b.steps).Upholds c (Same withoutSpeech b.steps) w) (w : ω) :
    (attachBranches synthesize branches).Upholds c (Same (mapBranches Body.withoutSpeech) branches) w := by
  induction branches generalizing w with
  | nil => exact upholds_same rfl
  | cons b rest ih =>
    obtain ⟨id, name, slots, steps⟩ := b
    obtain ⟨hb, hrest⟩ := List.forall_mem_cons.mp h
    rw [attachBranches]
    refine Task.Upholds.bind (fun p w₁ hp => ?_) (fun _ _ _ => same_error) (hb w)
    refine Task.Upholds.bind (fun q _ hq => ?_) (fun _ _ _ => same_error) (ih hrest w₁)
    have hsteps := hp p rfl
    have hmore := hq q rfl
    refine upholds_same ?_
    rw [mapBranches, mapBranches, hmore]
    exact congrArg (fun l => Branch.mk id name slots l :: _) hsteps

include hs in
theorem upholds_attach_body {b : Body}
    (h : ∀ d ∈ b.children, ∀ w, (attachSteps synthesize d.steps).Upholds c (Same withoutSpeech d.steps) w) (w : ω) :
    (b.attach synthesize).Upholds c (Same Body.silent b) w := by
  cases b with
  | greeting m =>
    exact upholds_attach_part Body.greeting Body.silent (fun _ ha => congrArg Body.greeting ha)
      (upholds_attach_message hs m w)
  | menu p options invalid =>
    obtain ⟨hos, hinvalid⟩ := (forall_menu_children
      (fun l => ∀ w, (attachSteps synthesize l).Upholds c (Same withoutSpeech l) w) p options invalid).mp h
    rw [Body.attach]
    refine Task.Upholds.bind (fun m w₁ hm => ?_) (fun _ _ _ => same_error) (upholds_attach_message hs p.message w)
    refine Task.Upholds.bind (fun os w₂ ho => ?_) (fun _ _ _ => same_error) (upholds_attachOptions hos w₁)
    refine Task.Upholds.bind (fun l _ hl => ?_) (fun _ _ _ => same_error) (hinvalid w₂)
    have hmessage := hm m rfl
    have hoptions := ho os rfl
    have hsteps : mapSteps Body.withoutSpeech l.1 = mapSteps Body.withoutSpeech invalid := hl l rfl
    refine upholds_same ?_
    simp only [Body.silent, Body.mapNested, Body.withoutSpeech, hmessage, hoptions, hsteps]
  | schedule z branches fallback =>
    obtain ⟨hbs, hfallback⟩ := (forall_schedule_children
      (fun l => ∀ w, (attachSteps synthesize l).Upholds c (Same withoutSpeech l) w) z branches fallback).mp h
    rw [Body.attach]
    refine Task.Upholds.bind (fun bs w₁ hb => ?_) (fun _ _ _ => same_error) (upholds_attachBranches hbs w)
    refine Task.Upholds.bind (fun l _ hl => ?_) (fun _ _ _ => same_error) (hfallback w₁)
    have hbranches := hb bs rfl
    have hsteps : mapSteps Body.withoutSpeech l.1 = mapSteps Body.withoutSpeech fallback := hl l rfl
    refine upholds_same ?_
    simp only [Body.silent, Body.mapNested, Body.withoutSpeech, hbranches, hsteps]
  | keypadEntry k =>
    let build (m : Message) : Body := .keypadEntry { k with message := m }
    exact upholds_attach_part build Body.silent (fun _ ha => congrArg build ha) (upholds_attach_message hs k.message w)
  | voicemail v =>
    let build (m : Option Message) : Body := .voicemail { v with greeting := m }
    exact upholds_attach_part build Body.silent (fun _ ha => congrArg build ha) (upholds_attachOption hs v.greeting w)
  | hangup m =>
    exact upholds_attach_part Body.hangup Body.silent (fun _ ha => congrArg Body.hangup ha)
      (upholds_attachOption hs m w)
  | _ => exact upholds_same rfl

include hs in
/-- **A flow that gained speech is the flow that was given**, but for the addresses of the speech. -/
theorem upholds_attachAudio (steps : Steps) (w : ω) :
    (attachAudio synthesize steps).Upholds c (Same withoutSpeech steps) w := by
  unfold attachAudio
  induction steps using Steps.tree_induction generalizing w with
  | nil => exact upholds_same rfl
  | cons s rest ihs ihr =>
    obtain ⟨id, label, body⟩ := s
    have hstep : (Step.attach synthesize ⟨id, label, body⟩).Upholds c
        (Same (Step.mapBody Body.withoutSpeech) ⟨id, label, body⟩) w :=
      upholds_attach_part (Step.mk id label) (Step.mapBody Body.withoutSpeech) (fun _ ha => congrArg (Step.mk id label) ha)
        (upholds_attach_body hs ihs w)
    rw [attachSteps]
    refine Task.Upholds.bind (fun p w₁ hp => ?_) (fun _ _ _ => same_error) hstep
    refine Task.Upholds.bind (fun q _ hq => ?_) (fun _ _ _ => same_error) (ihr w₁)
    have hfirst := hp p rfl
    have hmore : mapSteps Body.withoutSpeech q.1 = mapSteps Body.withoutSpeech rest := hq q rfl
    refine upholds_same ?_
    show mapSteps _ _ = mapSteps _ _
    rw [mapSteps, mapSteps, hfirst, hmore]

end Attaching

end Switchboard.Flow
