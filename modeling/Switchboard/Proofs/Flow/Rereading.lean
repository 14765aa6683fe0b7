import Switchboard.Flow.Printer
import Switchboard.Proofs.Flow.Bodies
import Switchboard.Proofs.Flow.Reading
/-!
# Reading back what was written

A flow is written with every default filled in, and a step of a known type without settings with empty ones.  Read back,
empty settings are those of a type that needs none, or they are refused: so what is read back is the flow with its bare
steps settled (`read_written`), and it is not read at all where a bare step is of a type that needs settings
(`read_written_of_lacking`).
-/
namespace Switchboard

theorem Json.lookup_append (key : String) (fs gs : List (String × Json)) :
    Json.lookup key (fs ++ gs) = (Json.lookup key fs).or (Json.lookup key gs) := by
  induction fs with
  | nil => rfl
  | cons p rest ih =>
    obtain ⟨k, v⟩ := p
    rw [List.cons_append, Json.lookup_cons, Json.lookup_cons, ih]
    split <;> rfl

namespace Flow

open Input

/-! ## Settings of a type -/

theorem lookup_optionalField (key name : String) (o : Option String) :
    Json.lookup key (optionalField name o) = if name = key then o.map .str else none := by
  cases o with
  | none => simp [optionalField]
  | some s => simp [optionalField, Json.lookup_cons]

theorem lookup_messageField (key name : String) (o : Option Message) :
    Json.lookup key (messageField name o) = if name = key then o.map Message.toJson else none := by
  cases o with
  | none => simp [messageField]
  | some m => simp [messageField, Json.lookup_cons]

/-- A value that is left out where there is none is read back. -/
theorem value?_nullable {α : Type} {read : Json → Checked α} {write : α → Json} {o : Option α}
    (hwrite : ∀ a, write a ≠ .null) (h : ∀ a ∈ o, (read (write a)).value? = some a) :
    o.elim (some none) ((fun v => (nullable read v).value?) ∘ write) = some o := by
  cases o with
  | none => rfl
  | some a =>
    have ha : (read (write a)).value? = some a := h a rfl
    simp only [Option.elim_some, Function.comp_apply]
    cases hw : write a with
    | null => exact absurd hw (hwrite a)
    | _ => rw [hw] at ha; simp [nullable, ha]

@[simp] theorem value?_optional (o : Option String) :
    o.elim (some none) ((fun v => (nullable asText v).value?) ∘ Json.str) = some o :=
  value?_nullable (fun _ h => nomatch h) fun _ _ => rfl

theorem value?_optionalTime {o : Option String} (h : ∀ t ∈ o, isTimeOfDay t = true) :
    o.elim (some none) ((fun v => (nullable (textShaped timeShape isTimeOfDay) v).value?) ∘ Json.str) = some o :=
  value?_nullable (fun _ h => nomatch h) fun t ht => value?_textShaped (h t ht)

@[simp] theorem value?_texts (ss : List String) : ss.mapM ((fun v => (asText v).value?) ∘ Json.str) = some ss := by
  rw [← List.mapM_map]
  exact mapM_write fun _ _ => rfl

@[simp] theorem Message.read_toJson (m : Message) : (Message.read m.toJson).value? = some m := by
  simp [Message.toJson, Message.read, Message.ofFields, lookup_optionalField, Json.lookup_append, Json.lookup_cons,
    value?_asWord (MessageKind.ofName?_name _), value?_asWord (Voice.ofName?_name _),
    value?_asWord (Language.ofName?_name _)]

@[simp] theorem value?_optionalMessage (o : Option Message) :
    o.elim (some none) ((fun v => (nullable Message.read v).value?) ∘ Message.toJson) = some o :=
  value?_nullable (fun _ h => nomatch h) fun m _ => m.read_toJson

theorem Dial.read_fields {d : Dial} (h : d.Fits) : (Dial.ofFields d.toJson.fields).value? = some d := by
  simp [Dial.toJson, Json.fields, Dial.ofFields, callerIdName, lookup_optionalField, Json.lookup_append, Json.lookup_cons,
    value?_textWithin h.1, value?_intWithin h.2]

theorem value?_destinations {ds : List String} (h : 2 ≤ ds.length) :
    (asListOf 2 asText (.arr (ds.map Json.str))).value? = some ds := by
  rw [value?_asListOf, value?_asList_arr, List.mapM_map, value?_texts, Option.bind_some, if_neg (Nat.not_lt.mpr h)]

theorem Simulcall.read_fields {d : Simulcall} (h : d.Fits) :
    (Simulcall.ofFields d.toJson.fields).value? = some d := by
  simp [Simulcall.toJson, Json.fields, Simulcall.ofFields, callerIdName, lookup_optionalField, Json.lookup_cons,
    value?_destinations h.1, value?_intWithin h.2]

theorem RoundRobin.read_fields {d : RoundRobin} (h : d.Fits) :
    (RoundRobin.ofFields d.toJson.fields).value? = some d := by
  simp [RoundRobin.toJson, Json.fields, RoundRobin.ofFields, callerIdName, lookup_optionalField,
    Json.lookup_cons, value?_destinations h.1, value?_intWithin h.2]

theorem KeypadEntry.read_fields {k : KeypadEntry} (h : k.Fits) :
    (KeypadEntry.ofFields k.toJson.fields).value? = some k := by
  simp [KeypadEntry.toJson, Json.fields, KeypadEntry.ofFields, Json.lookup_cons, value?_intWithin h.1, value?_intWithin h.2.1,
    value?_intWithin h.2.2]

theorem Tag.read_fields {t : Tag} (h : t.Fits) : (Tag.ofFields t.toJson.fields).value? = some t := by
  simp [Tag.toJson, Json.fields, Tag.ofFields, lookup_optionalField, Json.lookup_cons, value?_textWithin h]

theorem Voicemail.read_fields {v : Voicemail} (h : v.Fits) :
    (Voicemail.ofFields v.toJson.fields).value? = some v := by
  simp [Voicemail.toJson, Json.fields, Voicemail.ofFields, lookup_optionalField, lookup_messageField, Json.lookup_append,
    Json.lookup_cons, value?_intWithin h]

theorem Days.read_toJson {d : Days} (h : d.Fits) : (Days.read d.toJson).value? = some d := by
  cases d with
  | preset p => cases p <;> rfl
  | list ds =>
    have hds : asList asInt (.arr (ds.map .int)) = .ok ds := by
      rw [← Checked.value?_eq_some, value?_asList_arr]
      exact mapM_write fun _ _ => rfl
    have hany : ds.any (fun d => decide (d < 0) || decide (d > 6)) = false := by
      rw [List.any_eq_false]
      intro d hd
      have : Within 0 6 d := h d hd
      simp
      omega
    rw [Days.toJson, Days.read, hds]
    simp [asWord, hany, Checked.issue]

theorem TimeSlot.read_toJson {s : TimeSlot} (h : s.Fits) : (TimeSlot.read s.toJson).value? = some s := by
  simp [TimeSlot.toJson, TimeSlot.read, TimeSlot.ofFields, lookup_optionalField, Json.lookup_append, Json.lookup_cons,
    value?_optionalTime h.2.1, value?_optionalTime h.2.2, Days.read_toJson h.1]

/-! ## Bare steps -/

/-- What empty settings of a type are read as, where the type needs none. -/
def StepType.default? : StepType → Option Body
  | .schedule => some (.schedule "America/Chicago" [] [])
  | .voicemail => some (.voicemail ⟨none, 20, true, none⟩)
  | .hangup => some (.hangup none)
  | _ => none

theorem StepType.value?_empty (read : Json → Checked Steps) (t : StepType) :
    (Body.ofFields read t []).value? = t.default? := by
  cases t <;> simp [Body.ofFields, Body.menuOfFields, Body.scheduleOfFields, Dial.ofFields, Simulcall.ofFields,
    RoundRobin.ofFields, KeypadEntry.ofFields, Tag.ofFields, Voicemail.ofFields, callerIdName, default?]

/-- A body as it is read back: a bare one with the settings of its type, where the type needs none. -/
def Body.settle : Body → Body
  | .bare t => t.default?.getD (.bare t)
  | .unknown name .null => .unknown name (.obj [])
  | b => b

/-- Whether a body has no settings though its type needs some. -/
def Body.lacksSettings : Body → Bool
  | .bare t => t.default?.isNone
  | _ => false

def Step.lacksSettings (s : Step) : Bool := s.body.lacksSettings

/-- A flow as it is read back. -/
def settled (steps : Steps) : Steps := mapSteps Body.settle steps

theorem keepsTree_settle : KeepsTree Body.settle where
  type? b := by
    unfold Body.settle
    split
    · rename_i t; cases t <;> rfl
    · rfl
    · rfl
  lists b := by
    unfold Body.settle
    split
    · rename_i t; cases t <;> rfl
    · rfl
    · rfl

/-! ## Bodies -/

theorem Body.typeName_of_type? {b : Body} {t : StepType} (h : b.type? = some t) : b.typeName = t.name := by
  cases b <;> simp_all [Body.typeName, Body.type?]

theorem value?_read_obj (read : Json → Checked Steps) (t : StepType) (fs : List (String × Json)) :
    (Body.read read t (.obj fs)).value? = (Body.ofFields read t fs).value? := by
  cases fs <;> rfl

theorem value?_ofStepFields {read : Json → Checked Steps} {name : String} {t : StepType}
    (ht : StepType.ofName? name = some t) {fs config : List (String × Json)}
    (hc : Json.lookup "config" fs = some (.obj config)) :
    (Body.ofStepFields read (some name) fs).value? = (Body.ofFields read t config).value? := by
  simp [Body.ofStepFields, ht, hc, value?_read_obj]

/-- Of the fields of a step only its settings are looked at for its body. -/
theorem value?_ofStepFields_congr {read : Json → Checked Steps} {type : Option String} {fs gs : List (String × Json)}
    (h : Json.lookup "config" fs = Json.lookup "config" gs) :
    (Body.ofStepFields read type fs).value? = (Body.ofStepFields read type gs).value? := by
  cases type with
  | none => rfl
  | some name =>
    rw [Body.ofStepFields, Body.ofStepFields]
    cases StepType.ofName? name with
    | none => simp only [h]
    | some t => simp only [value?_field, Name.value?_one, h]

/-- The settings that a body of a known type is written with. -/
def Body.config : Body → Fields
  | .greeting m => [("message", m.toJson)]
  | .dial d => d.toJson.fields
  | .simulcall d => d.toJson.fields
  | .roundRobin d => d.toJson.fields
  | .menu p options invalid =>
    [("message", p.message.toJson), ("options", .arr (optionsToJson options)), ("numDigits", .int p.numDigits),
      ("timeout", .int p.timeout), ("retries", .int p.retries), ("invalidInputSteps", Steps.toJson invalid)]
  | .schedule timezone branches fallback =>
    [("timezone", .str timezone), ("branches", .arr (branchesToJson branches)), ("fallbackSteps", Steps.toJson fallback)]
  | .keypadEntry k => k.toJson.fields
  | .tag t => t.toJson.fields
  | .voicemail v => v.toJson.fields
  | .hangup m => messageField "message" m
  | .bare _ | .unknown _ _ => []

theorem toFields_of_type? {b : Body} {t : StepType} (h : b.type? = some t) : b.toFields = [("config", .obj b.config)] := by
  cases b <;> first | rfl | cases h

/-- A choice of a menu as it is written. -/
def MenuOption.toJson (o : MenuOption) : Json :=
  .obj ([("digit", .str o.digit)] ++ optionalField "label" o.label ++ [("steps", Steps.toJson o.steps)])

/-- A branch of a schedule as it is written. -/
def Branch.toJson (b : Branch) : Json :=
  .obj [("id", .str b.id), ("name", .str b.name), ("timeSlots", .arr (b.slots.map TimeSlot.toJson)),
    ("steps", Steps.toJson b.steps)]

theorem optionsToJson_eq (options : List MenuOption) : optionsToJson options = options.map MenuOption.toJson := by
  induction options with
  | nil => rfl
  | cons o rest ih => obtain ⟨digit, label, steps⟩ := o; rw [optionsToJson, List.map_cons, ih]; rfl

theorem branchesToJson_eq (branches : List Branch) : branchesToJson branches = branches.map Branch.toJson := by
  induction branches with
  | nil => rfl
  | cons b rest ih => obtain ⟨id, name, slots, steps⟩ := b; rw [branchesToJson, List.map_cons, ih]; rfl

section Nested

variable {read : Json → Checked Steps}

theorem value?_option {o : MenuOption} (hdigit : isMenuDigit o.digit = true) :
    (object "MenuOption" (MenuOption.ofFields read) o.toJson).value? =
      (read (Steps.toJson o.steps)).value?.map fun steps => { o with steps } := by
  simp [MenuOption.toJson, MenuOption.ofFields, stepsName, Json.lookup_append, Json.lookup_cons, lookup_optionalField,
    value?_textShaped hdigit]

theorem value?_branch {b : Branch} (hslots : ∀ s ∈ b.slots, s.Fits) :
    (object "ScheduleBranch" (Branch.ofFields read) b.toJson).value? =
      (read (Steps.toJson b.steps)).value?.map fun steps => { b with steps } := by
  have htimes : (b.slots.map TimeSlot.toJson).mapM (fun v => (TimeSlot.read v).value?) = some b.slots :=
    mapM_write fun s hmem => TimeSlot.read_toJson (hslots s hmem)
  rw [List.mapM_map] at htimes
  simp [Branch.toJson, Branch.ofFields, stepsName, Json.lookup_cons, htimes]

/-- **The settings of a body are read back**, where the lists of the body are. -/
theorem value?_config {b : Body} {t : StepType} (ht : b.type? = some t) (hfit : b.Fits) (hset : b.lacksSettings = false)
    (hread : ∀ c ∈ b.children, (read (Steps.toJson c.steps)).value? = some (settled c.steps)) :
    (Body.ofFields read t b.config).value? = some (b.mapNested Body.settle).settle := by
  cases b with
  | greeting m => cases ht; simp [Body.ofFields, Body.config, Json.lookup_cons, Body.mapNested, Body.settle]
  | dial d =>
    cases ht
    simp only [Body.ofFields, Body.config, Checked.value?_map, Dial.read_fields hfit]
    rfl
  | simulcall d =>
    cases ht
    simp only [Body.ofFields, Body.config, Checked.value?_map, Simulcall.read_fields hfit]
    rfl
  | roundRobin d =>
    cases ht
    simp only [Body.ofFields, Body.config, Checked.value?_map, RoundRobin.read_fields hfit]
    rfl
  | menu p options invalid =>
    cases ht
    obtain ⟨hp, hlen, hdigit⟩ := hfit
    obtain ⟨hos, hinvalid⟩ :=
      (forall_menu_children (fun l => (read (Steps.toJson l)).value? = some (settled l)) _ _ _).mp hread
    have hopts : ((options.map MenuOption.toJson).mapM fun v =>
        (object "MenuOption" (MenuOption.ofFields read) v).value?) = some (mapOptions Body.settle options) := by
      rw [mapOptions_eq]
      refine mapM_write_map fun o ho => ?_
      rw [value?_option (hdigit o ho), hos o ho]
      rfl
    have hne : mapOptions Body.settle options ≠ [] := by
      rw [mapOptions_eq, ← List.length_pos_iff, List.length_map]
      exact hlen
    simp [Body.ofFields, Body.menuOfFields, Body.config, Json.lookup_cons, value?_asListOf, optionsToJson_eq, hopts, hne,
      hinvalid, value?_intWithin hp.1, value?_intWithin hp.2.1, value?_intWithin hp.2.2, -List.mapM_map]
    rfl
  | schedule z branches fallback =>
    cases ht
    obtain ⟨hbs, hfallback⟩ :=
      (forall_schedule_children (fun l => (read (Steps.toJson l)).value? = some (settled l)) _ _ _).mp hread
    have hbranches : ((branches.map Branch.toJson).mapM fun v =>
        (object "ScheduleBranch" (Branch.ofFields read) v).value?) = some (mapBranches Body.settle branches) := by
      rw [mapBranches_eq]
      refine mapM_write_map fun b hb => ?_
      rw [value?_branch (hfit b hb), hbs b hb]
      rfl
    simp [Body.ofFields, Body.scheduleOfFields, Body.config, Json.lookup_cons, branchesToJson_eq, hbranches, hfallback,
      -List.mapM_map]
    rfl
  | keypadEntry k =>
    cases ht
    simp only [Body.ofFields, Body.config, Checked.value?_map, KeypadEntry.read_fields hfit]
    rfl
  | tag t =>
    cases ht
    simp only [Body.ofFields, Body.config, Checked.value?_map, Tag.read_fields hfit]
    rfl
  | voicemail v =>
    cases ht
    simp only [Body.ofFields, Body.config, Checked.value?_map, Voicemail.read_fields hfit]
    rfl
  | hangup m =>
    cases ht
    simp [Body.ofFields, Body.config, lookup_messageField, Body.mapNested, Body.settle]
  | bare t =>
    cases ht
    rw [Body.config, StepType.value?_empty]
    cases t <;> first | rfl | cases hset
  | unknown name c => cases ht

/-- **A body is read back**, settled, where its lists are. -/
theorem value?_body {b : Body} (hfit : b.Fits) (hset : b.lacksSettings = false)
    (hread : ∀ c ∈ b.children, (read (Steps.toJson c.steps)).value? = some (settled c.steps)) :
    (Body.ofStepFields read (some b.typeName) b.toFields).value? = some (b.mapNested Body.settle).settle := by
  cases ht : b.type? with
  | some t =>
    rw [Body.typeName_of_type? ht, toFields_of_type? ht, value?_ofStepFields (StepType.ofName?_name t) rfl]
    exact value?_config ht hfit hset hread
  | none =>
    cases b with
    | unknown name c =>
      have hname : StepType.ofName? name = none := hfit
      rw [Body.typeName, Body.ofStepFields]
      simp only [hname]
      cases c <;> rfl
    | _ => cases ht

theorem lookup_toFields_of_ne {key : String} (h : "config" ≠ key) (b : Body) : Json.lookup key b.toFields = none := by
  cases ht : b.type? with
  | some t => rw [toFields_of_type? ht, Json.lookup_cons, if_neg h]; rfl
  | none =>
    cases b with
    | unknown name c => cases c <;> simp [Body.toFields, Json.lookup_cons, h]
    | _ => cases ht

/-- A step is read back by its body. -/
theorem value?_step_eq {s : Step} (hid : 1 ≤ s.id.length) :
    (object "Step" (Step.ofFields read) s.toJson).value? =
      (Body.ofStepFields read (some s.typeName) s.body.toFields).value?.map (Step.mk s.id s.label) := by
  obtain ⟨id, label, body⟩ := s
  let fs := [("id", .str id), ("type", .str body.typeName)] ++ optionalField "label" label ++ body.toFields
  have hid : (required (.one "id") (textWithin 1 none) fs).value? = some id := by
    simp [fs, Json.lookup_cons, value?_textWithin hid]
  have htype : required (.one "type") asText fs = .ok body.typeName := by
    rw [← Checked.value?_eq_some]
    simp [fs, Json.lookup_cons]
  have hlabel : (field (.one "label") none (nullable asText) fs).value? = some label := by
    simp [fs, Json.lookup_cons, Json.lookup_append, lookup_optionalField, lookup_toFields_of_ne]
  have hconfig : Json.lookup "config" fs = Json.lookup "config" body.toFields := by
    simp [fs, Json.lookup_cons, Json.lookup_append, lookup_optionalField]
  show (Step.ofFields read fs).value? = _
  rw [Step.ofFields, htype]
  simp only [Checked.value?_seq, Checked.value?_map, Checked.value?_ok, hid, hlabel, value?_ofStepFields_congr hconfig]
  rfl

/-- **A step is read back**, settled, where its lists are. -/
theorem value?_step {s : Step} (hfit : s.Fits) (hset : s.lacksSettings = false)
    (hread : ∀ c ∈ s.children, (read (Steps.toJson c.steps)).value? = some (settled c.steps)) :
    (object "Step" (Step.ofFields read) s.toJson).value? = some (s.mapBody Body.settle) := by
  rw [value?_step_eq hfit.1, Step.typeName, value?_body hfit.2 hset hread]
  obtain ⟨id, label, body⟩ := s
  rfl

/-! ## What is not read back -/

/-- Where a list of a body is not read back, the body is not. -/
theorem value?_body_of_unread {b : Body} {c : Child} (hfit : b.Fits) (hc : c ∈ b.children)
    (hread : (read (Steps.toJson c.steps)).value? = none) :
    (Body.ofStepFields read (some b.typeName) b.toFields).value? = none := by
  cases b with
  | menu p options invalid =>
    rw [Body.typeName_of_type? (t := .menu) rfl, toFields_of_type? (t := .menu) rfl,
      value?_ofStepFields (StepType.ofName?_name .menu) rfl]
    by_cases hi : (read (Steps.toJson invalid)).value? = none
    · simp [Body.ofFields, Body.menuOfFields, Body.config, Json.lookup_cons, hi]
    · have ho : ∃ o ∈ options, (read (Steps.toJson o.steps)).value? = none := by
        by_contra hall
        exact (forall_menu_children (fun l => (read (Steps.toJson l)).value? ≠ none) p options invalid).mpr
          ⟨by simpa using hall, hi⟩ c hc hread
      obtain ⟨o, ho, hnone⟩ := ho
      have hopts : ((options.map MenuOption.toJson).mapM fun v =>
          (object "MenuOption" (MenuOption.ofFields read) v).value?) = none := by
        refine mapM_eq_none ⟨o.toJson, List.mem_map_of_mem ho, ?_⟩
        rw [value?_option (hfit.2.2 o ho), hnone]
        rfl
      simp [Body.ofFields, Body.menuOfFields, Body.config, Json.lookup_cons, value?_asListOf, optionsToJson_eq, hopts,
        -List.mapM_map]
  | schedule z branches fallback =>
    rw [Body.typeName_of_type? (t := .schedule) rfl, toFields_of_type? (t := .schedule) rfl,
      value?_ofStepFields (StepType.ofName?_name .schedule) rfl]
    by_cases hi : (read (Steps.toJson fallback)).value? = none
    · simp [Body.ofFields, Body.scheduleOfFields, Body.config, Json.lookup_cons, hi]
    · have hb : ∃ b ∈ branches, (read (Steps.toJson b.steps)).value? = none := by
        by_contra hall
        exact (forall_schedule_children (fun l => (read (Steps.toJson l)).value? ≠ none) z branches fallback).mpr
          ⟨by simpa using hall, hi⟩ c hc hread
      obtain ⟨b, hb, hnone⟩ := hb
      have hbranches : ((branches.map Branch.toJson).mapM fun v =>
          (object "ScheduleBranch" (Branch.ofFields read) v).value?) = none := by
        refine mapM_eq_none ⟨b.toJson, List.mem_map_of_mem hb, ?_⟩
        rw [value?_branch (hfit b hb), hnone]
        rfl
      simp [Body.ofFields, Body.scheduleOfFields, Body.config, Json.lookup_cons, branchesToJson_eq, hbranches,
        -List.mapM_map]
  | _ => cases hc

theorem value?_body_of_lacking {b : Body} (h : b.lacksSettings = true) :
    (Body.ofStepFields read (some b.typeName) b.toFields).value? = none := by
  cases b with
  | bare t =>
    rw [Body.typeName_of_type? (t := t) rfl, toFields_of_type? (t := t) rfl,
      value?_ofStepFields (StepType.ofName?_name t) rfl, Body.config, StepType.value?_empty]
    exact Option.isNone_iff_eq_none.mp h
  | _ => cases h

/-- **A step is not read back** where it lacks settings or a list of it is not read back. -/
theorem value?_step_eq_none {s : Step} (hfit : s.Fits)
    (h : s.lacksSettings = true ∨ ∃ c ∈ s.children, (read (Steps.toJson c.steps)).value? = none) :
    (object "Step" (Step.ofFields read) s.toJson).value? = none := by
  rw [value?_step_eq hfit.1, Option.map_eq_none_iff]
  rcases h with h | ⟨c, hc, hread⟩
  · exact value?_body_of_lacking h
  · exact value?_body_of_unread hfit.2 hc hread

end Nested

/-! ## Flows -/

theorem depth_le_depthItems {v : Json} {vs : List Json} (h : v ∈ vs) : depth v ≤ depthItems vs := by
  induction vs with
  | nil => cases h
  | cons w rest ih =>
    rw [depthItems]
    rcases List.mem_cons.mp h with rfl | h
    · omega
    · have := ih h; omega

theorem depth_le_depthFields {k : String} {v : Json} {fs : Fields} (h : (k, v) ∈ fs) : depth v ≤ depthFields fs := by
  induction fs with
  | nil => cases h
  | cons w rest ih =>
    obtain ⟨k', w⟩ := w
    rw [depthFields]
    rcases List.mem_cons.mp h with heq | h
    · cases heq; omega
    · have := ih h; omega

/-- The lists of a body are not nested deeper than its settings. -/
theorem depth_child {b : Body} : ∀ c ∈ b.children, depth (Steps.toJson c.steps) ≤ depthFields b.config := by
  cases b with
  | menu p options invalid =>
    refine (forall_menu_children (fun l => depth (Steps.toJson l) ≤ _) _ _ _).mpr ⟨fun o ho => ?_, ?_⟩
    · have hlist : depth (.arr (optionsToJson options)) ≤ depthFields (Body.menu p options invalid).config :=
        depth_le_depthFields (k := "options") (by simp [Body.config])
      have hitem : depth o.toJson ≤ depthItems (optionsToJson options) :=
        depth_le_depthItems (by rw [optionsToJson_eq]; exact List.mem_map_of_mem ho)
      have hsteps : depth (Steps.toJson o.steps) ≤ depth o.toJson :=
        Nat.le_succ_of_le (depth_le_depthFields (k := "steps") (by simp))
      rw [depth] at hlist
      omega
    · exact depth_le_depthFields (k := "invalidInputSteps") (by simp [Body.config])
  | schedule z branches fallback =>
    refine (forall_schedule_children (fun l => depth (Steps.toJson l) ≤ _) _ _ _).mpr ⟨fun b hb => ?_, ?_⟩
    · have hlist : depth (.arr (branchesToJson branches)) ≤ depthFields (Body.schedule z branches fallback).config :=
        depth_le_depthFields (k := "branches") (by simp [Body.config])
      have hitem : depth b.toJson ≤ depthItems (branchesToJson branches) :=
        depth_le_depthItems (by rw [branchesToJson_eq]; exact List.mem_map_of_mem hb)
      have hsteps : depth (Steps.toJson b.steps) ≤ depth b.toJson :=
        Nat.le_succ_of_le (depth_le_depthFields (k := "steps") (by simp))
      rw [depth] at hlist
      omega
    · exact depth_le_depthFields (k := "fallbackSteps") (by simp [Body.config])
  | _ => intro c hc; cases hc

theorem depth_step_child {s : Step} {c : Child} (hc : c ∈ s.children) :
    depth (Steps.toJson c.steps) ≤ depth s.toJson := by
  obtain ⟨id, label, body⟩ := s
  have hchild : depth (Steps.toJson c.steps) ≤ depthFields body.config := depth_child c hc
  have hfields : body.toFields = [("config", .obj body.config)] := by
    cases body <;> first | rfl | cases hc
  have hconfig : depth (.obj body.config) ≤ depthFields ([("id", .str id), ("type", .str body.typeName)] ++
      optionalField "label" label ++ body.toFields) :=
    depth_le_depthFields (k := "config") (by simp [hfields])
  rw [depth] at hconfig
  rw [Step.toJson, depth]
  omega

/-- **A flow is read back**, settled, where none of its steps lacks settings. -/
theorem read_written {steps : Steps} (hfit : AllFit steps) (hset : ∀ s ∈ flat steps, s.lacksSettings = false) :
    ∀ {n : Nat}, depth (Steps.toJson steps) ≤ n → (readSteps n (Steps.toJson steps)).value? = some (settled steps) := by
  induction steps using Steps.tree_induction with
  | nil => intro n _; cases n <;> rfl
  | cons s rest ihs ihr =>
    intro n hn
    obtain ⟨hs, hchildren, hrest⟩ := allFit_cons.mp hfit
    obtain ⟨hsets, hsetc, hsetr⟩ := forall_flat_cons.mp hset
    rw [Steps.toJson, stepsToJson, depth, depthItems] at hn
    obtain ⟨n, rfl⟩ : ∃ m, n = m + 1 := ⟨n - 1, by omega⟩
    have hread : ∀ c ∈ s.children, (readSteps n (Steps.toJson c.steps)).value? = some (settled c.steps) := by
      intro c hc
      have := depth_step_child hc
      exact ihs c hc (hchildren c hc) (hsetc c hc) (by omega)
    have hmore := ihr hrest hsetr (n := n + 1) (by rw [Steps.toJson, depth]; omega)
    rw [Steps.toJson, readSteps, value?_asList_arr] at hmore
    rw [Steps.toJson, stepsToJson, readSteps, value?_asList_arr, List.mapM_cons, value?_step hs hsets hread, hmore]
    rfl

/-- **A flow in which a step lacks settings is not read back**, whatever the depth that is allowed for. -/
theorem read_written_of_lacking {steps : Steps} (hfit : AllFit steps) (hlack : ∃ s ∈ flat steps, s.lacksSettings = true) :
    ∀ n : Nat, (readSteps n (Steps.toJson steps)).value? = none := by
  induction steps using Steps.tree_induction with
  | nil => obtain ⟨s, hs, -⟩ := hlack; cases hs
  | cons s rest ihs ihr =>
    intro n
    obtain ⟨hs, hchildren, hrest⟩ := allFit_cons.mp hfit
    -- One level of the reading, whatever nested lists are read with.
    have hlevel (read : Json → Checked Steps)
        (hread : ∀ c ∈ s.children, (∃ t ∈ flat c.steps, t.lacksSettings = true) → (read (Steps.toJson c.steps)).value? = none)
        (hmore : (∃ t ∈ flat rest, t.lacksSettings = true) →
          (asList (object "Step" (Step.ofFields read)) (Steps.toJson rest)).value? = none) :
        (asList (object "Step" (Step.ofFields read)) (Steps.toJson (s :: rest))).value? = none := by
      rw [Steps.toJson, stepsToJson, value?_asList_arr]
      rcases exists_flat_cons.mp hlack with hown | ⟨c, hc, ht⟩ | hr
      · exact mapM_eq_none ⟨_, List.mem_cons_self, value?_step_eq_none hs (.inl hown)⟩
      · exact mapM_eq_none ⟨_, List.mem_cons_self, value?_step_eq_none hs (.inr ⟨c, hc, hread c hc ht⟩)⟩
      · have := hmore hr
        rw [Steps.toJson, value?_asList_arr] at this
        rw [List.mapM_cons, this]
        cases Checked.value? (object "Step" (Step.ofFields read) s.toJson) <;> rfl
    cases n with
    | zero => exact hlevel _ (fun _ _ _ => rfl) fun hr => ihr hrest hr 0
    | succ n => exact hlevel _ (fun c hc ht => ihs c hc (hchildren c hc) ht n) fun hr => ihr hrest hr (n + 1)

/-! ## Loading -/

/-- Steps that are stored are read one by one, each as deep as it is nested. -/
theorem value?_readOne {s : Step} (hfit : s.Fits) (hchildren : ∀ c ∈ s.children, AllFit c.steps)
    (hset : s.lacksSettings = false) (hsetc : ∀ c ∈ s.children, ∀ t ∈ flat c.steps, t.lacksSettings = false) :
    (Step.read s.toJson).value? = some (s.mapBody Body.settle) :=
  value?_step hfit hset fun c hc => read_written (hchildren c hc) (hsetc c hc) (depth_step_child hc)

theorem read_toJson (steps : Steps) : Steps.read (Steps.toJson steps) = readEach (stepsToJson steps) := by
  cases steps <;> rfl

/-- **A stored flow is loaded**, settled, where none of its steps lacks settings. -/
theorem load_written {steps : Steps} (hfit : AllFit steps) (hset : ∀ s ∈ flat steps, s.lacksSettings = false) :
    Steps.read (Steps.toJson steps) = .ok (settled steps) := by
  rw [read_toJson, ← toOption_eq_some, toOption_readEach]
  induction steps with
  | nil => rfl
  | cons s rest ih =>
    obtain ⟨hs, hchildren, hrest⟩ := allFit_cons.mp hfit
    obtain ⟨hsets, hsetc, hsetr⟩ := forall_flat_cons.mp hset
    rw [stepsToJson, List.mapM_cons, value?_readOne hs hchildren hsets hsetc, ih hrest hsetr]
    rfl

/-- **A stored flow is refused** where a step of it lacks settings: the defects of one step are reported. -/
theorem load_written_of_lacking {steps : Steps} (hfit : AllFit steps)
    (hlack : ∃ s ∈ flat steps, s.lacksSettings = true) :
    ∃ issues, Steps.read (Steps.toJson steps) = .error (.defects issues) := by
  have hnone : (readEach (stepsToJson steps)).toOption = none := by
    rw [toOption_readEach]
    induction steps with
    | nil => obtain ⟨s, hs, -⟩ := hlack; cases hs
    | cons s rest ih =>
      obtain ⟨hs, hchildren, hrest⟩ := allFit_cons.mp hfit
      rw [stepsToJson]
      rcases exists_flat_cons.mp hlack with hown | ⟨c, hc, ht⟩ | hr
      · exact mapM_eq_none ⟨_, List.mem_cons_self, value?_step_eq_none hs (.inl hown)⟩
      · exact mapM_eq_none ⟨_, List.mem_cons_self,
          value?_step_eq_none hs (.inr ⟨c, hc, read_written_of_lacking (hchildren c hc) ht _⟩)⟩
      · rw [List.mapM_cons, ih hrest hr]
        cases Checked.value? (Step.read s.toJson) <;> rfl
  rw [read_toJson]
  exact readEach_defects hnone

end Flow

end Switchboard
