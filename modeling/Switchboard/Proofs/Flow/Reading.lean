import Switchboard.Flow.Reader
import Switchboard.Proofs.Flow.Tree
import Switchboard.Proofs.Input.Values
/-!
# What reading a flow gives

The settings of a step have bounds: a time to ring, a number of digits, a shape of a digit.  `Step.Fits` says that a step
keeps the bounds of its own settings; every step of a flow that was read, at whatever depth, does (`fits_of_read`).  What
the bounds are is said once here, and reading back what is written needs nothing else of a flow.
-/
namespace Switchboard.Flow

open Input

/-! ## Bounds -/

/-- Whether a number lies between two bounds. -/
abbrev Within (least most n : Int) : Prop := least ≤ n ∧ n ≤ most

def Dial.Fits (d : Dial) : Prop := 1 ≤ d.destination.length ∧ Within 5 120 d.timeout

def Simulcall.Fits (d : Simulcall) : Prop := 2 ≤ d.destinations.length ∧ Within 5 120 d.timeout

def RoundRobin.Fits (d : RoundRobin) : Prop := 2 ≤ d.destinations.length ∧ Within 5 60 d.timeoutPerDestination

def KeypadEntry.Fits (k : KeypadEntry) : Prop := Within 1 20 k.maxDigits ∧ Within 1 20 k.minDigits ∧ Within 1 30 k.timeout

def Tag.Fits (t : Tag) : Prop := 1 ≤ t.tagName.length

def Voicemail.Fits (v : Voicemail) : Prop := Within 5 120 v.maxLength

def Days.Fits : Days → Prop
  | .preset _ => True
  | .list ds => ∀ d ∈ ds, Within 0 6 d

def TimeSlot.Fits (s : TimeSlot) : Prop :=
  s.days.Fits ∧ (∀ t ∈ s.startTime, isTimeOfDay t = true) ∧ ∀ t ∈ s.endTime, isTimeOfDay t = true

def MenuPrompt.Fits (p : MenuPrompt) : Prop := Within 1 10 p.numDigits ∧ Within 1 30 p.timeout ∧ Within 0 5 p.retries

/-- The settings of a step are within bounds; those of nested steps are not looked at. -/
def Body.Fits : Body → Prop
  | .dial d => d.Fits
  | .simulcall d => d.Fits
  | .roundRobin d => d.Fits
  | .menu p options _ => p.Fits ∧ 1 ≤ options.length ∧ ∀ o ∈ options, isMenuDigit o.digit = true
  | .schedule _ branches _ => ∀ b ∈ branches, ∀ s ∈ b.slots, s.Fits
  | .keypadEntry k => k.Fits
  | .tag t => t.Fits
  | .voicemail v => v.Fits
  | .unknown name _ => StepType.ofName? name = none
  | .greeting _ | .hangup _ | .bare _ => True

def Step.Fits (s : Step) : Prop := 1 ≤ s.id.length ∧ s.body.Fits

/-! ## Reading keeps to the bounds -/

theorem Dial.fits_of_read {fs : List (String × Json)} {d : Dial} (h : (Dial.ofFields fs).value? = some d) : d.Fits := by
  simp only [Dial.ofFields, Checked.value?_seq, Checked.value?_map, Option.bind_eq_some_iff,
    Option.map_eq_some_iff] at h
  obtain ⟨_, ⟨_, ⟨_, ⟨destination, hd, rfl⟩, timeout, ht, rfl⟩, _, -, rfl⟩, _, -, rfl⟩ := h
  exact ⟨(Gives.textWithin 1 none).required hd, (Gives.intWithin 5 120).field (by decide) ht⟩

theorem Simulcall.fits_of_read {fs : List (String × Json)} {d : Simulcall}
    (h : (Simulcall.ofFields fs).value? = some d) : d.Fits := by
  simp only [Simulcall.ofFields, Checked.value?_seq, Checked.value?_map, Option.bind_eq_some_iff,
    Option.map_eq_some_iff] at h
  obtain ⟨_, ⟨_, ⟨destinations, hd, rfl⟩, timeout, ht, rfl⟩, _, -, rfl⟩ := h
  exact ⟨(Gives.length_asListOf 2 asText).required hd, (Gives.intWithin 5 120).field (by decide) ht⟩

theorem RoundRobin.fits_of_read {fs : List (String × Json)} {d : RoundRobin}
    (h : (RoundRobin.ofFields fs).value? = some d) : d.Fits := by
  simp only [RoundRobin.ofFields, Checked.value?_seq, Checked.value?_map, Option.bind_eq_some_iff,
    Option.map_eq_some_iff] at h
  obtain ⟨_, ⟨_, ⟨destinations, hd, rfl⟩, timeout, ht, rfl⟩, _, -, rfl⟩ := h
  exact ⟨(Gives.length_asListOf 2 asText).required hd, (Gives.intWithin 5 60).field (by decide) ht⟩

theorem KeypadEntry.fits_of_read {fs : List (String × Json)} {k : KeypadEntry}
    (h : (KeypadEntry.ofFields fs).value? = some k) : k.Fits := by
  simp only [KeypadEntry.ofFields, Checked.value?_seq, Checked.value?_map, Option.bind_eq_some_iff,
    Option.map_eq_some_iff] at h
  obtain ⟨_, ⟨_, ⟨_, ⟨_, ⟨_, ⟨_, -, rfl⟩, _, -, rfl⟩, most, hmost, rfl⟩, least, hleast, rfl⟩, _, -, rfl⟩, timeout, ht, rfl⟩ := h
  exact ⟨(Gives.intWithin 1 20).field (by decide) hmost, (Gives.intWithin 1 20).field (by decide) hleast,
    (Gives.intWithin 1 30).field (by decide) ht⟩

theorem Tag.fits_of_read {fs : List (String × Json)} {t : Tag} (h : (Tag.ofFields fs).value? = some t) : t.Fits := by
  simp only [Tag.ofFields, Checked.value?_seq, Checked.value?_map, Option.bind_eq_some_iff, Option.map_eq_some_iff] at h
  obtain ⟨_, ⟨name, hn, rfl⟩, _, -, rfl⟩ := h
  exact (Gives.textWithin 1 none).required hn

theorem Voicemail.fits_of_read {fs : List (String × Json)} {v : Voicemail}
    (h : (Voicemail.ofFields fs).value? = some v) : v.Fits := by
  simp only [Voicemail.ofFields, Checked.value?_seq, Checked.value?_map, Option.bind_eq_some_iff,
    Option.map_eq_some_iff] at h
  obtain ⟨_, ⟨_, ⟨_, ⟨_, -, rfl⟩, most, hm, rfl⟩, _, -, rfl⟩, _, -, rfl⟩ := h
  exact (Gives.intWithin 5 120).field (by decide) hm

theorem Days.fits_of_read : Gives Days.read Days.Fits := by
  intro v d h
  unfold Days.read at h
  simp only at h
  split at h
  · cases h; trivial
  · rename_i hdays
    split at h
    · cases h
    · rename_i hany
      cases h
      intro d hd
      have := hany
      simp only [List.any_eq_true, Bool.or_eq_true, decide_eq_true_eq, not_exists, not_and, not_or] at this
      have := this d hd
      constructor <;> omega
  · cases h

theorem TimeSlot.fits_of_read : Gives TimeSlot.read TimeSlot.Fits := by
  refine Gives.object fun fs s h => ?_
  simp only [TimeSlot.ofFields, Checked.value?_seq, Checked.value?_map, Option.bind_eq_some_iff,
    Option.map_eq_some_iff] at h
  obtain ⟨_, ⟨_, ⟨_, ⟨days, hd, rfl⟩, start, hs, rfl⟩, stop, he, rfl⟩, _, -, rfl⟩ := h
  have htime := (Gives.textShaped timeShape isTimeOfDay).nullable
  exact ⟨Days.fits_of_read.required hd, htime.field (by simp) hs, htime.field (by simp) he⟩

/-! ## Reading steps -/

/-- Every step of a list, at whatever depth, fits. -/
def AllFit (steps : Steps) : Prop := ∀ s ∈ flat steps, s.Fits

theorem AllFit.nil : AllFit [] := fun _ hs => by cases hs

theorem allFit_cons {s : Step} {rest : Steps} :
    AllFit (s :: rest) ↔ s.Fits ∧ (∀ c ∈ s.children, AllFit c.steps) ∧ AllFit rest := forall_flat_cons

section

variable {steps : Json → Checked Steps} (hsteps : Gives steps AllFit)

include hsteps

theorem MenuOption.fits_of_read :
    Gives (object "MenuOption" (MenuOption.ofFields steps)) fun o => isMenuDigit o.digit = true ∧ AllFit o.steps := by
  refine Gives.object fun fs o h => ?_
  simp only [MenuOption.ofFields, Checked.value?_seq, Checked.value?_map, Option.bind_eq_some_iff,
    Option.map_eq_some_iff] at h
  obtain ⟨_, ⟨_, ⟨digit, hd, rfl⟩, _, -, rfl⟩, nested, hn, rfl⟩ := h
  exact ⟨(Gives.textShaped _ isMenuDigit).required hd, hsteps.field AllFit.nil hn⟩

theorem Branch.fits_of_read :
    Gives (object "ScheduleBranch" (Branch.ofFields steps)) fun b => (∀ s ∈ b.slots, s.Fits) ∧ AllFit b.steps := by
  refine Gives.object fun fs b h => ?_
  simp only [Branch.ofFields, Checked.value?_seq, Checked.value?_map, Option.bind_eq_some_iff,
    Option.map_eq_some_iff] at h
  obtain ⟨_, ⟨_, ⟨_, ⟨_, -, rfl⟩, _, -, rfl⟩, slots, hs, rfl⟩, nested, hn, rfl⟩ := h
  exact ⟨TimeSlot.fits_of_read.asList.field (by simp) hs, hsteps.field AllFit.nil hn⟩

theorem Body.fits_of_menu {fs : List (String × Json)} {b : Body} (h : (Body.menuOfFields steps fs).value? = some b) :
    b.Fits ∧ ∀ c ∈ b.children, AllFit c.steps := by
  simp only [Body.menuOfFields, Checked.value?_seq, Checked.value?_map, Option.bind_eq_some_iff,
    Option.map_eq_some_iff] at h
  obtain ⟨_, ⟨_, ⟨_, ⟨_, ⟨_, ⟨_, -, rfl⟩, os, hos, rfl⟩, n, hn, rfl⟩, t, ht, rfl⟩, r, hr, rfl⟩, invalid, hi, rfl⟩ := h
  have hlen := (Gives.length_asListOf 1 _).required hos
  have hopts := ((MenuOption.fits_of_read hsteps).asListOf 1).required hos
  refine ⟨⟨⟨(Gives.intWithin 1 10).field (by decide) hn, (Gives.intWithin 1 30).field (by decide) ht,
    (Gives.intWithin 0 5).field (by decide) hr⟩, hlen, fun o ho => (hopts o ho).1⟩, ?_⟩
  exact (forall_menu_children _ _ _ _).mpr ⟨fun o ho => (hopts o ho).2, hsteps.field AllFit.nil hi⟩

theorem Body.fits_of_schedule {fs : List (String × Json)} {b : Body}
    (h : (Body.scheduleOfFields steps fs).value? = some b) : b.Fits ∧ ∀ c ∈ b.children, AllFit c.steps := by
  simp only [Body.scheduleOfFields, Checked.value?_seq, Checked.value?_map, Option.bind_eq_some_iff,
    Option.map_eq_some_iff] at h
  obtain ⟨_, ⟨_, ⟨_, -, rfl⟩, bs, hbs, rfl⟩, fallback, hf, rfl⟩ := h
  have hbranches := (Branch.fits_of_read hsteps).asList.field (by simp) hbs
  exact ⟨fun b hb => (hbranches b hb).1,
    (forall_schedule_children _ _ _ _).mpr ⟨fun b hb => (hbranches b hb).2, hsteps.field AllFit.nil hf⟩⟩

/-- Settings of a type fit, and so does every step below them. -/
theorem Body.fits_of_fields {type : StepType} {fs : List (String × Json)} {b : Body}
    (h : (Body.ofFields steps type fs).value? = some b) : b.Fits ∧ ∀ c ∈ b.children, AllFit c.steps := by
  have none_below {c : Child} (hc : c ∈ ([] : List Child)) : AllFit c.steps := nomatch hc
  cases type with
  | menu => exact Body.fits_of_menu hsteps h
  | schedule => exact Body.fits_of_schedule hsteps h
  | greeting | hangup =>
    simp only [Body.ofFields, Checked.value?_map, Option.map_eq_some_iff] at h
    obtain ⟨m, -, rfl⟩ := h
    exact ⟨trivial, fun c => none_below⟩
  | dial =>
    simp only [Body.ofFields, Checked.value?_map, Option.map_eq_some_iff] at h
    obtain ⟨d, hd, rfl⟩ := h
    exact ⟨Dial.fits_of_read hd, fun c => none_below⟩
  | simulcall =>
    simp only [Body.ofFields, Checked.value?_map, Option.map_eq_some_iff] at h
    obtain ⟨d, hd, rfl⟩ := h
    exact ⟨Simulcall.fits_of_read hd, fun c => none_below⟩
  | roundRobin =>
    simp only [Body.ofFields, Checked.value?_map, Option.map_eq_some_iff] at h
    obtain ⟨d, hd, rfl⟩ := h
    exact ⟨RoundRobin.fits_of_read hd, fun c => none_below⟩
  | keypadEntry =>
    simp only [Body.ofFields, Checked.value?_map, Option.map_eq_some_iff] at h
    obtain ⟨k, hk, rfl⟩ := h
    exact ⟨KeypadEntry.fits_of_read hk, fun c => none_below⟩
  | tag =>
    simp only [Body.ofFields, Checked.value?_map, Option.map_eq_some_iff] at h
    obtain ⟨t, ht, rfl⟩ := h
    exact ⟨Tag.fits_of_read ht, fun c => none_below⟩
  | voicemail =>
    simp only [Body.ofFields, Checked.value?_map, Option.map_eq_some_iff] at h
    obtain ⟨v, hv, rfl⟩ := h
    exact ⟨Voicemail.fits_of_read hv, fun c => none_below⟩

theorem Body.fits_of_step {type : Option String} {fs : List (String × Json)} {b : Body}
    (htype : type.isSome = true) (h : (Body.ofStepFields steps type fs).value? = some b) :
    b.Fits ∧ ∀ c ∈ b.children, AllFit c.steps := by
  obtain ⟨name, rfl⟩ := Option.isSome_iff_exists.mp htype
  rw [Body.ofStepFields] at h
  split at h
  · rename_i t ht
    have hread : Gives (Body.read steps t) fun b => b.Fits ∧ ∀ c ∈ b.children, AllFit c.steps := fun v b hb =>
      Gives.object (fun fs b => Body.fits_of_fields hsteps) _ b hb
    have hbare : (Body.bare t).Fits ∧ ∀ c ∈ (Body.bare t).children, AllFit c.steps :=
      ⟨trivial, fun _ hc => absurd hc List.not_mem_nil⟩
    exact hread.field hbare h
  · rename_i ht
    cases h
    exact ⟨ht, fun _ hc => absurd hc List.not_mem_nil⟩

/-- **A step that was read fits**, and so does every step below it. -/
theorem Step.fits_of_read :
    Gives (object "Step" (Step.ofFields steps)) fun s => s.Fits ∧ ∀ c ∈ s.children, AllFit c.steps := by
  refine Gives.object fun fs s h => ?_
  simp only [Step.ofFields, Checked.value?_seq, Checked.value?_map, Option.bind_eq_some_iff,
    Option.map_eq_some_iff] at h
  obtain ⟨_, ⟨_, ⟨_, ⟨id, hid, rfl⟩, type, htype, rfl⟩, _, -, rfl⟩, body, hbody, rfl⟩ := h
  rw [Checked.value?_eq_some.mp htype] at hbody
  have hb := Body.fits_of_step hsteps rfl hbody
  exact ⟨⟨(Gives.textWithin 1 none).required hid, hb.1⟩, hb.2⟩

end

theorem allFit_of_forall {steps : Steps} (h : ∀ s ∈ steps, s.Fits ∧ ∀ c ∈ s.children, AllFit c.steps) :
    AllFit steps := by
  induction steps with
  | nil => exact AllFit.nil
  | cons s rest ih =>
    obtain ⟨hs, hrest⟩ := List.forall_mem_cons.mp h
    exact allFit_cons.mpr ⟨hs.1, hs.2, ih hrest⟩

/-- **Whatever is read fits**, at whatever depth. -/
theorem fits_of_readSteps : ∀ depth : Nat, Gives (readSteps depth) AllFit
  | 0 => by
    have hnone : Gives (fun v => (Checked.issue .listExpected v : Checked Steps)) AllFit := fun v a h => nomatch h
    exact (Step.fits_of_read hnone).asList.mono fun _ => allFit_of_forall
  | depth + 1 => (Step.fits_of_read (fits_of_readSteps depth)).asList.mono fun _ => allFit_of_forall

/-! ## Lists that are given or stored -/

theorem Step.fits_of_readOne : Gives Step.read fun s => s.Fits ∧ ∀ c ∈ s.children, AllFit c.steps := fun v s h =>
  Step.fits_of_read (fits_of_readSteps (depth v)) v s h

theorem toOption_readEach (vs : List Json) :
    (readEach vs).toOption = vs.mapM fun v => (Step.read v).value? := by
  induction vs with
  | nil => rfl
  | cons v rest ih =>
    rw [readEach, List.mapM_cons, ← ih]
    cases Step.read v with
    | bad is => rfl
    | ok s => cases readEach rest <;> rfl

theorem toOption_eq_some {ε α : Type} {r : Except ε α} {a : α} : r.toOption = some a ↔ r = .ok a := by
  cases r <;> simp [Except.toOption]

/-- A list of items that cannot all be read is refused for the defects of one of them. -/
theorem readEach_defects {vs : List Json} (h : (readEach vs).toOption = none) :
    ∃ issues, readEach vs = .error (.defects issues) := by
  induction vs with
  | nil => cases h
  | cons v rest ih =>
    rw [readEach] at h ⊢
    cases hv : Step.read v with
    | bad is => exact ⟨is, rfl⟩
    | ok s =>
      rw [hv] at h
      have hrest : (readEach rest).toOption = none := by
        cases hr : readEach rest with
        | error e => rfl
        | ok more => rw [hr] at h; cases h
      obtain ⟨is, his⟩ := ih hrest
      exact ⟨is, by simp only [his]; rfl⟩

theorem fits_of_readEach {vs : List Json} {steps : Steps} (h : readEach vs = .ok steps) : AllFit steps := by
  rw [← toOption_eq_some, toOption_readEach] at h
  exact allFit_of_forall (forall_of_mapM Step.fits_of_readOne h)

/-- **A flow that was read fits.** -/
theorem fits_of_read {v : Json} {steps : Steps} (h : Steps.read v = .ok steps) : AllFit steps := by
  unfold Steps.read at h
  split at h
  · cases h; exact AllFit.nil
  · split at h
    · exact fits_of_readEach h
    · exact fits_of_readEach h
    · exact fits_of_readEach h
    · cases h

/-- A list of steps inside a larger document is read as the list alone is. -/
theorem read_of_readPosted {v : Json} {steps : Steps} (h : Steps.readPosted v = .ok steps) :
    Steps.read v = .ok steps := by
  rw [← Checked.value?_eq_some, Steps.readPosted, value?_asList, Option.bind_eq_some_iff] at h
  obtain ⟨vs, hv, h⟩ := h
  have heach : vs.mapM (fun v => (Step.read v).value?) = some steps := by
    rw [← h]
    congr 1
    funext v
    cases v <;> rfl
  rw [← toOption_readEach, toOption_eq_some] at heach
  cases v with
  | arr xs =>
    cases hv
    cases vs with
    | nil => exact heach
    | cons x rest => exact heach
  | _ => cases hv

end Switchboard.Flow
