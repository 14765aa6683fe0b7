import Switchboard.Proofs.Flow.Rereading
import Switchboard.Proofs.Json.Rereading
/-!
# Flows as texts

A flow travels as a text and is stored as one.  A flow whose steps all have settings of their type is told by its text: no
object in what is written has a name twice, and every number is small, so the text is read back as the same value; and the
value is read back as the same flow, at whatever depth (`flow_text_round_trip`).
-/
namespace Switchboard.Flow

open Json (Plain)

/-! ## What is written is plain -/

/-- Fields under some names in their order, each once at most, with plain values. -/
def PlainFields (names : List String) (fs : Fields) : Prop :=
  (∀ f ∈ fs, Plain f.2) ∧ (fs.map Prod.fst).Sublist names

namespace PlainFields

variable {names more : List String} {fs gs : Fields}

theorem nil : PlainFields [] [] := ⟨fun _ h => (nomatch h), List.Sublist.refl _⟩

theorem cons {v : Json} (hv : Plain v) (h : PlainFields names fs) (name : String) :
    PlainFields (name :: names) ((name, v) :: fs) :=
  ⟨List.forall_mem_cons.2 ⟨hv, h.1⟩, h.2.cons_cons name⟩

theorem append (h : PlainFields names fs) (h' : PlainFields more gs) : PlainFields (names ++ more) (fs ++ gs) :=
  ⟨List.forall_mem_append.2 ⟨h.1, h'.1⟩, by rw [List.map_append]; exact h.2.append h'.2⟩

theorem optional (name : String) (o : Option String) : PlainFields [name] (optionalField name o) := by
  cases o with
  | none => exact ⟨fun _ h => (nomatch h), List.nil_sublist _⟩
  | some s => exact cons (.str s) nil name

/-- Fields whose names differ make a plain object. -/
theorem obj (h : PlainFields names fs) (hnames : names.Nodup) : Plain (.obj fs) := .obj h.1 (h.2.nodup hnames)

end PlainFields

theorem plain_int {n : Int} (h : Within 0 120 n) : Plain (.int n) :=
  .int (Text.Readable.of_le (n := 120) (by decide) (by omega))

theorem plain_texts (ss : List String) : Plain (.arr (ss.map .str)) := by
  refine .arr fun v hv => ?_
  obtain ⟨s, -, rfl⟩ := List.mem_map.1 hv
  exact .str s

theorem Message.plain (m : Message) : Plain m.toJson :=
  ((((PlainFields.cons (.str _) .nil "type").append (.optional "text" _)).append (.optional "recordingUrl" _)).append
    (.cons (.str _) (.cons (.str _) .nil "language") "voice")).append (.optional "generatedAudioUrl" _)
    |>.obj (by decide)

theorem plain_messageField (name : String) (o : Option Message) : PlainFields [name] (messageField name o) := by
  cases o with
  | none => exact ⟨fun _ h => (nomatch h), List.nil_sublist _⟩
  | some m => exact .cons m.plain .nil name

theorem Days.plain {d : Days} (h : d.Fits) : Plain d.toJson := by
  cases d with
  | preset p => exact .str _
  | list ds =>
    refine .arr fun v hv => ?_
    obtain ⟨d, hd, rfl⟩ := List.mem_map.1 hv
    have : Within 0 6 d := h d hd
    exact plain_int (by omega)

theorem TimeSlot.plain {s : TimeSlot} (h : s.Fits) : Plain s.toJson :=
  (((PlainFields.cons (Days.plain h.1) .nil "days").append (.optional "startTime" _)).append (.optional "endTime" _)).append
    (.cons (.bool _) .nil "allDay") |>.obj (by decide)

/-- The settings of a body are plain, where its lists are. -/
theorem Body.plain_config {b : Body} (hfit : b.Fits) (hlists : ∀ c ∈ b.children, Plain (Steps.toJson c.steps)) :
    Plain (.obj b.config) := by
  cases b with
  | greeting m => exact (PlainFields.cons m.plain .nil "message").obj (by decide)
  | dial d =>
    obtain ⟨-, htimeout⟩ := hfit
    exact ((PlainFields.cons (.str _) (.cons (plain_int (by omega)) .nil "timeout") "destination").append
      (.optional "callerId" _)).append (.cons (.bool _) .nil "record") |>.obj (by decide)
  | simulcall d =>
    obtain ⟨-, htimeout⟩ := hfit
    exact (PlainFields.cons (plain_texts _) (.cons (plain_int (by omega)) .nil "timeout") "destinations").append
      (.optional "callerId" _) |>.obj (by decide)
  | roundRobin d =>
    obtain ⟨-, htimeout⟩ := hfit
    exact (PlainFields.cons (plain_texts _) (.cons (plain_int (by omega)) .nil "timeoutPerDestination") "destinations").append
      (.optional "callerId" _) |>.obj (by decide)
  | menu p options invalid =>
    obtain ⟨⟨hdigits, htimeout, hretries⟩, -, -⟩ := hfit
    obtain ⟨hos, hinvalid⟩ := (forall_menu_children (fun l => Plain (Steps.toJson l)) _ _ _).mp hlists
    have hoptions : Plain (.arr (optionsToJson options)) := by
      rw [optionsToJson_eq]
      refine .arr fun v hv => ?_
      obtain ⟨o, ho, rfl⟩ := List.mem_map.1 hv
      exact ((PlainFields.cons (.str _) .nil "digit").append (.optional "label" _)).append
        (.cons (hos o ho) .nil "steps") |>.obj (by decide)
    exact (PlainFields.cons p.message.plain (.cons hoptions (.cons (plain_int (by omega)) (.cons (plain_int (by omega))
      (.cons (plain_int (by omega)) (.cons hinvalid .nil "invalidInputSteps") "retries") "timeout") "numDigits") "options")
      "message").obj (by decide)
  | schedule z branches fallback =>
    obtain ⟨hbs, hfallback⟩ := (forall_schedule_children (fun l => Plain (Steps.toJson l)) _ _ _).mp hlists
    have hbranches : Plain (.arr (branchesToJson branches)) := by
      rw [branchesToJson_eq]
      refine .arr fun v hv => ?_
      obtain ⟨b, hb, rfl⟩ := List.mem_map.1 hv
      have hslots : Plain (.arr (b.slots.map TimeSlot.toJson)) := by
        refine .arr fun v hv => ?_
        obtain ⟨s, hs, rfl⟩ := List.mem_map.1 hv
        exact TimeSlot.plain (hfit b hb s hs)
      exact (PlainFields.cons (.str _) (.cons (.str _) (.cons hslots (.cons (hbs b hb) .nil "steps") "timeSlots") "name")
        "id").obj (by decide)
    exact (PlainFields.cons (.str _) (.cons hbranches (.cons hfallback .nil "fallbackSteps") "branches") "timezone").obj
      (by decide)
  | keypadEntry k =>
    obtain ⟨hmost, hleast, htimeout⟩ := hfit
    exact (PlainFields.cons k.message.plain (.cons (.str _) (.cons (plain_int (by omega)) (.cons (plain_int (by omega))
      (.cons (.bool _) (.cons (plain_int (by omega)) .nil "timeout") "finishOnKey") "minDigits") "maxDigits") "variableName")
      "message").obj (by decide)
  | tag t => exact (PlainFields.cons (.str _) .nil "tagName").append (.optional "tagValue" _) |>.obj (by decide)
  | voicemail v =>
    have hlength : Within 5 120 v.maxLength := hfit
    exact ((plain_messageField "greeting" _).append (.cons (plain_int (by omega)) (.cons (.bool _) .nil "transcribe")
      "maxLength")).append (.optional "notificationEmail" _) |>.obj (by decide)
  | hangup m => exact (plain_messageField "message" m).obj (by decide)
  | bare t => exact PlainFields.nil.obj (by decide)
  | unknown name c => exact PlainFields.nil.obj (by decide)

/-- A step of a known type is plain, where its lists are. -/
theorem Step.plain {s : Step} (hfit : s.Fits) (hknown : s.isKnown = true)
    (hlists : ∀ c ∈ s.children, Plain (Steps.toJson c.steps)) : Plain s.toJson := by
  obtain ⟨id, label, body⟩ := s
  obtain ⟨t, ht⟩ := Option.isSome_iff_exists.1 hknown
  rw [Step.toJson, toFields_of_type? ht]
  exact ((PlainFields.cons (.str _) (.cons (.str _) .nil "type") "id").append (.optional "label" _)).append
    (.cons (Body.plain_config hfit.2 hlists) .nil "config") |>.obj (by decide)

/-- **A flow of steps of known types is written plainly**, at whatever depth. -/
theorem plain_toJson {steps : Steps} (hfit : AllFit steps) (hknown : ∀ s ∈ flat steps, s.isKnown = true) :
    Plain (Steps.toJson steps) := by
  suffices h : ∀ v ∈ stepsToJson steps, Plain v from .arr h
  induction steps using Steps.tree_induction with
  | nil => exact fun _ hv => nomatch hv
  | cons s rest ihs ihr =>
    obtain ⟨hs, hchildren, hrest⟩ := allFit_cons.mp hfit
    obtain ⟨hk, hkchildren, hkrest⟩ := forall_flat_cons.mp hknown
    exact List.forall_mem_cons.2
      ⟨Step.plain hs hk fun c hc => .arr (ihs c hc (hchildren c hc) (hkchildren c hc)), ihr hrest hkrest⟩

/-! ## Settings of a type -/

/-- Whether a step is of a known type and has settings of it. -/
def Step.isConfigured (s : Step) : Bool :=
  match s.body with
  | .bare _ | .unknown _ _ => false
  | _ => true

/-- A flow whose steps all have settings of their type, within bounds. -/
def Configured (steps : Steps) : Prop := ∀ s ∈ flat steps, s.isConfigured = true ∧ s.Fits

/-- A change that leaves the lists of a body as they are leaves the body. -/
theorem mapNested_eq_self {f : Body → Body} {b : Body} (h : ∀ c ∈ b.children, mapSteps f c.steps = c.steps) :
    b.mapNested f = b := by
  cases b with
  | menu p options invalid =>
    obtain ⟨hos, hinvalid⟩ := (forall_menu_children (fun l => mapSteps f l = l) _ _ _).mp h
    have hsame : mapOptions f options = options := by
      rw [mapOptions_eq]
      refine (List.map_congr_left fun o ho => ?_).trans (List.map_id options)
      rw [hos o ho]
      cases o
      rfl
    rw [Body.mapNested, hsame, hinvalid]
  | schedule z branches fallback =>
    obtain ⟨hbs, hfallback⟩ := (forall_schedule_children (fun l => mapSteps f l = l) _ _ _).mp h
    have hsame : mapBranches f branches = branches := by
      rw [mapBranches_eq]
      refine (List.map_congr_left fun b hb => ?_).trans (List.map_id branches)
      rw [hbs b hb]
      cases b
      rfl
    rw [Body.mapNested, hsame, hfallback]
  | _ => rfl

namespace Configured

variable {steps : Steps}

theorem allFit (h : Configured steps) : AllFit steps := fun s hs => (h s hs).2

theorem isKnown (h : Configured steps) : ∀ s ∈ flat steps, s.isKnown = true := fun s hs => by
  obtain ⟨id, label, body⟩ := s
  cases body <;> first | rfl | cases (h _ hs).1

theorem lacksSettings (h : Configured steps) : ∀ s ∈ flat steps, s.lacksSettings = false := fun s hs => by
  obtain ⟨id, label, body⟩ := s
  cases body <;> first | rfl | cases (h _ hs).1

/-- Nothing of such a flow is filled in when it is read back. -/
theorem settled_eq (h : Configured steps) : settled steps = steps := by
  induction steps using Steps.tree_induction with
  | nil => rfl
  | cons s rest ihs ihr =>
    obtain ⟨⟨hs, -⟩, hchildren, hrest⟩ := forall_flat_cons.mp h
    have hnested := mapNested_eq_self fun c hc => ihs c hc (hchildren c hc)
    obtain ⟨id, label, body⟩ := s
    have hbody : body.settle = body := by cases body <;> first | rfl | cases hs
    rw [settled, mapSteps, Step.mapBody, hnested, hbody]
    exact congrArg (Step.mk id label body :: ·) (ihr hrest)

end Configured

/-- **A flow is told by its text.**  A flow whose steps are of known types and have valid settings, nested in whatever way, is
written as a text that is read as the value that was written, and the value is read as the same flow.  So no two such flows
are written alike, and what is read back is written as the same value again. -/
theorem flow_text_round_trip {steps : Steps} (h : Configured steps) :
    Json.parse (Steps.toJson steps).toText = .ok (Steps.toJson steps) ∧
      Steps.read (Steps.toJson steps) = .ok steps ∧
      (∀ other : Steps, Configured other → (Steps.toJson other).toText = (Steps.toJson steps).toText → other = steps) ∧
      (∀ other : Steps, Configured other → Steps.toJson other = Steps.toJson steps → other = steps) ∧
      ∀ value back, Json.parse (Steps.toJson steps).toText = .ok value → Steps.read value = .ok back →
        Steps.toJson back = Steps.toJson steps := by
  have hparse {steps : Steps} (h : Configured steps) :
      Json.parse (Steps.toJson steps).toText = .ok (Steps.toJson steps) :=
    Json.parse_toText (plain_toJson h.allFit h.isKnown)
  have hread {steps : Steps} (h : Configured steps) : Steps.read (Steps.toJson steps) = .ok steps := by
    rw [load_written h.allFit h.lacksSettings, h.settled_eq]
  have hvalue (other : Steps) (ho : Configured other) (heq : Steps.toJson other = Steps.toJson steps) : other = steps := by
    have := hread ho
    rw [heq, hread h] at this
    exact (Except.ok.inj this).symm
  refine ⟨hparse h, hread h, fun other ho heq => hvalue other ho ?_, hvalue, fun value back hv hb => ?_⟩
  · have := hparse ho
    rw [heq, hparse h] at this
    exact (Except.ok.inj this).symm
  · rw [hparse h] at hv
    cases hv
    rw [hread h] at hb
    cases hb
    rfl

/-- A schedule in a menu option, with opening times on listed days, a voicemail behind it and a label with a quotation mark,
comes back from its text. -/
theorem nested_flow_round_trips :
    let hours : Branch := ⟨"b1", "Öffnungszeiten", [⟨.list [1, 5], some "09:00", none, false⟩],
      [⟨"d", some "the \"desk\"", .dial ⟨"tu-anna", 30, none, true⟩⟩]⟩
    let schedule : Step := ⟨"s", none, .schedule "Europe/Berlin" [hours] [⟨"v", none, .voicemail ⟨none, 60, false, none⟩⟩]⟩
    let message : Message := ⟨.tts, some "Press one", none, .alloy, .enUS, none⟩
    let steps : Steps :=
      [⟨"m", none, .menu ⟨message, 1, 5, 2⟩ [⟨"1", none, [schedule]⟩] [⟨"h", none, .hangup none⟩]⟩]
    Configured steps ∧ Json.parse (Steps.toJson steps).toText = .ok (Steps.toJson steps) ∧
      Steps.read (Steps.toJson steps) = .ok steps := by
  intro hours schedule message steps
  have hflat : flat steps = [⟨"m", none, .menu ⟨message, 1, 5, 2⟩ [⟨"1", none, [schedule]⟩] [⟨"h", none, .hangup none⟩]⟩,
      schedule, ⟨"d", some "the \"desk\"", .dial ⟨"tu-anna", 30, none, true⟩⟩,
      ⟨"v", none, .voicemail ⟨none, 60, false, none⟩⟩, ⟨"h", none, .hangup none⟩] := rfl
  have h : Configured steps := by
    simp only [Configured, hflat, List.forall_mem_cons]
    refine ⟨⟨rfl, by decide, ⟨by decide, by decide, by decide⟩, by decide, by decide⟩, ⟨rfl, by decide, ?_⟩,
      ⟨rfl, by decide, by decide, by decide⟩, ⟨rfl, by decide, by decide, by decide⟩, ⟨rfl, by decide, trivial⟩,
      List.forall_mem_nil _⟩
    have hslot : TimeSlot.Fits ⟨.list [1, 5], some "09:00", none, false⟩ :=
      ⟨by simp only [Days.Fits]; decide, by decide, by decide⟩
    exact List.forall_mem_singleton.2 (List.forall_mem_singleton.2 hslot)
  obtain ⟨hparse, hread, -⟩ := flow_text_round_trip h
  exact ⟨h, hparse, hread⟩

end Switchboard.Flow
