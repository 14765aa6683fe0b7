import Switchboard.Flow.Step
import Switchboard.Input.Field
import Switchboard.Text.Digit
/-!
# Reading flows

A step is read field by field; its settings are read by its type and only where they are given.  A document nests at most
as deep as its text, so the depth of the document bounds the reading.
-/
namespace Switchboard.Flow

open Input

/-! ## Prompts and plain settings -/

def Message.ofFields (fs : List (String × Json)) : Checked Message :=
  Message.mk <$> field (.one "type") .tts (asWord ["tts", "recording"] MessageKind.ofName?) fs
    <*> field (.one "text") none (nullable asText) fs
    <*> field ⟨"recordingUrl", "recording_url"⟩ none (nullable asText) fs
    <*> field (.one "voice") .echo (asWord (Voice.all.map Voice.name) Voice.ofName?) fs
    <*> field (.one "language") .enUS (asWord (Language.all.map Language.name) Language.ofName?) fs
    <*> field ⟨"generatedAudioUrl", "generated_audio_url"⟩ none (nullable asText) fs

def Message.read (v : Json) : Checked Message := object "MessageConfig" Message.ofFields v

def callerIdName : Input.Name := ⟨"callerId", "caller_id"⟩

def Dial.ofFields (fs : List (String × Json)) : Checked Dial :=
  Dial.mk <$> required (.one "destination") (textWithin 1 none) fs
    <*> field (.one "timeout") 30 (intWithin 5 (some 120)) fs
    <*> field callerIdName none (nullable asText) fs
    <*> field (.one "record") false asBool fs

def Simulcall.ofFields (fs : List (String × Json)) : Checked Simulcall :=
  Simulcall.mk <$> required (.one "destinations") (asListOf 2 asText) fs
    <*> field (.one "timeout") 30 (intWithin 5 (some 120)) fs
    <*> field callerIdName none (nullable asText) fs

def RoundRobin.ofFields (fs : List (String × Json)) : Checked RoundRobin :=
  RoundRobin.mk <$> required (.one "destinations") (asListOf 2 asText) fs
    <*> field ⟨"timeoutPerDestination", "timeout_per_destination"⟩ 20 (intWithin 5 (some 60)) fs
    <*> field callerIdName none (nullable asText) fs

def KeypadEntry.ofFields (fs : List (String × Json)) : Checked KeypadEntry :=
  KeypadEntry.mk <$> required (.one "message") Message.read fs
    <*> field ⟨"variableName", "variable_name"⟩ "keypad_input" asText fs
    <*> field ⟨"maxDigits", "max_digits"⟩ 10 (intWithin 1 (some 20)) fs
    <*> field ⟨"minDigits", "min_digits"⟩ 1 (intWithin 1 (some 20)) fs
    <*> field ⟨"finishOnKey", "finish_on_key"⟩ true asBool fs
    <*> field (.one "timeout") 5 (intWithin 1 (some 30)) fs

def Tag.ofFields (fs : List (String × Json)) : Checked Tag :=
  Tag.mk <$> required ⟨"tagName", "tag_name"⟩ (textWithin 1 none) fs
    <*> field ⟨"tagValue", "tag_value"⟩ none (nullable asText) fs

def Voicemail.ofFields (fs : List (String × Json)) : Checked Voicemail :=
  Voicemail.mk <$> field (.one "greeting") none (nullable Message.read) fs
    <*> field ⟨"maxLength", "max_length"⟩ 20 (intWithin 5 (some 120)) fs
    <*> field (.one "transcribe") true asBool fs
    <*> field ⟨"notificationEmail", "notification_email"⟩ none (nullable asText) fs

/-! ## Opening times -/

/-- Whether a text is a time of day: hours from 00 to 23, a colon, minutes from 00 to 59; the second digit of each may be
of any script. -/
def isTimeOfDay (s : String) : Bool :=
  match s.toList with
  | [a, b, c, d, e] =>
    ((a = '0' || a = '1') && Text.isDigit b || a = '2' && '0' ≤ b && b ≤ '3') && c = ':' &&
      ('0' ≤ d && d ≤ '5') && Text.isDigit e
  | _ => false

/-- A preset or a list of weekdays from 0 to 6.  Where neither reads, the defects of both are reported. -/
def Days.read (v : Json) : Checked Days :=
  let preset : Checked DayPreset := asWord ["weekdays", "weekends", "everyday"] DayPreset.ofName? v
  let days : Checked (List Int) := asList asInt v
  match preset, days with
  | .ok p, _ => .ok (.preset p)
  | .bad _, .ok ds => if ds.any (fun d => d < 0 || d > 6) then .issue .weekday v else .ok (.list ds)
  | .bad is, .bad js =>
    .bad (is.map (Issue.under (.field "literal['weekdays','weekends','everyday']")) ++
      js.map (Issue.under (.field "list[int]")))

def timeShape : String := "^([01]\\d|2[0-3]):[0-5]\\d$"

def TimeSlot.ofFields (fs : List (String × Json)) : Checked TimeSlot :=
  TimeSlot.mk <$> required (.one "days") Days.read fs
    <*> field ⟨"startTime", "start_time"⟩ none (nullable (textShaped timeShape isTimeOfDay)) fs
    <*> field ⟨"endTime", "end_time"⟩ none (nullable (textShaped timeShape isTimeOfDay)) fs
    <*> field ⟨"allDay", "all_day"⟩ false asBool fs

def TimeSlot.read (v : Json) : Checked TimeSlot := object "TimeSlot" TimeSlot.ofFields v

/-! ## Steps -/

def isMenuDigit (s : String) : Bool :=
  match s.toList with
  | [c] => isAsciiDigit c || c = '*' || c = '#'
  | _ => false

def Body.ofMenu (message : Message) (options : List MenuOption) (numDigits timeout retries : Int)
    (invalidInput : List Step) : Body :=
  .menu ⟨message, numDigits, timeout, retries⟩ options invalidInput

def stepsName : Input.Name := .one "steps"

/-- A choice of a menu, given how its steps are read. -/
def MenuOption.ofFields (steps : Json → Checked (List Step)) (fs : List (String × Json)) : Checked MenuOption :=
  MenuOption.mk <$> required (.one "digit") (textShaped "^[0-9*#]$" isMenuDigit) fs
    <*> field (.one "label") none (nullable asText) fs
    <*> field stepsName [] steps fs

/-- A branch of a schedule, given how its steps are read. -/
def Branch.ofFields (steps : Json → Checked (List Step)) (fs : List (String × Json)) : Checked Branch :=
  Branch.mk <$> required (.one "id") asText fs
    <*> required (.one "name") asText fs
    <*> field ⟨"timeSlots", "time_slots"⟩ [] (asList TimeSlot.read) fs
    <*> field stepsName [] steps fs

def Body.menuOfFields (steps : Json → Checked (List Step)) (fs : List (String × Json)) : Checked Body :=
  Body.ofMenu <$> required (.one "message") Message.read fs
    <*> required (.one "options") (asListOf 1 (object "MenuOption" (MenuOption.ofFields steps))) fs
    <*> field ⟨"numDigits", "num_digits"⟩ 1 (intWithin 1 (some 10)) fs
    <*> field (.one "timeout") 5 (intWithin 1 (some 30)) fs
    <*> field (.one "retries") 2 (intWithin 0 (some 5)) fs
    <*> field ⟨"invalidInputSteps", "invalid_input_steps"⟩ [] steps fs

def Body.scheduleOfFields (steps : Json → Checked (List Step)) (fs : List (String × Json)) : Checked Body :=
  Body.schedule <$> field (.one "timezone") "America/Chicago" asText fs
    <*> field (.one "branches") [] (asList (object "ScheduleBranch" (Branch.ofFields steps))) fs
    <*> field ⟨"fallbackSteps", "fallback_steps"⟩ [] steps fs

def StepType.modelName : StepType → String
  | .greeting => "GreetingConfig"
  | .dial => "DialConfig"
  | .simulcall => "SimulcallConfig"
  | .roundRobin => "RoundRobinConfig"
  | .menu => "MenuConfig"
  | .schedule => "ScheduleConfig"
  | .keypadEntry => "KeypadEntryConfig"
  | .tag => "TagConfig"
  | .voicemail => "VoicemailConfig"
  | .hangup => "HangupConfig"

/-- The settings of a type, given how nested steps are read. -/
def Body.ofFields (steps : Json → Checked (List Step)) (type : StepType) (fs : List (String × Json)) : Checked Body :=
  match type with
  | .greeting => Body.greeting <$> required (.one "message") Message.read fs
  | .dial => Body.dial <$> Dial.ofFields fs
  | .simulcall => Body.simulcall <$> Simulcall.ofFields fs
  | .roundRobin => Body.roundRobin <$> RoundRobin.ofFields fs
  | .menu => Body.menuOfFields steps fs
  | .schedule => Body.scheduleOfFields steps fs
  | .keypadEntry => Body.keypadEntry <$> KeypadEntry.ofFields fs
  | .tag => Body.tag <$> Tag.ofFields fs
  | .voicemail => Body.voicemail <$> Voicemail.ofFields fs
  | .hangup => Body.hangup <$> field (.one "message") none (nullable Message.read) fs

/-- The settings of a type; a value that stands for nothing counts as no settings. -/
def Body.read (steps : Json → Checked (List Step)) (type : StepType) (v : Json) : Checked Body :=
  object type.modelName (Body.ofFields steps type) (if v.truthy then v else .obj [])

/-- The body of a step whose type was read, or of one whose type was not. -/
def Body.ofStepFields (steps : Json → Checked (List Step)) (type : Option String) (fs : List (String × Json)) :
    Checked Body :=
  match type with
  | none => .ok (.unknown "" .null)
  | some name =>
    match StepType.ofName? name with
    | some t => field (.one "config") (.bare t) (Body.read steps t) fs
    | none => .ok (.unknown name ((Json.lookup "config" fs).getD (.obj [])))

def Step.ofFields (steps : Json → Checked (List Step)) (fs : List (String × Json)) : Checked Step :=
  let type := required (.one "type") asText fs
  let known : Option String := match type with
    | .ok t => some t
    | .bad _ => none
  (fun id _ label body => Step.mk id label body) <$> required (.one "id") (textWithin 1 none) fs
    <*> type
    <*> field (.one "label") none (nullable asText) fs
    <*> Body.ofStepFields steps known fs

/-- A list of steps nested at most `depth` deep. -/
def readSteps : Nat → Json → Checked (List Step)
  | 0, v => asList (object "Step" (Step.ofFields (fun v => .issue .listExpected v))) v
  | depth + 1, v => asList (object "Step" (Step.ofFields (readSteps depth))) v

mutual

def depth : Json → Nat
  | .arr xs => depthItems xs + 1
  | .obj fs => depthFields fs + 1
  | _ => 0

def depthItems : List Json → Nat
  | [] => 0
  | x :: xs => max (depth x) (depthItems xs)

def depthFields : List (String × Json) → Nat
  | [] => 0
  | (_, v) :: fs => max (depth v) (depthFields fs)

end

def Step.read (v : Json) : Checked Step := object "Step" (Step.ofFields (readSteps (depth v))) v

/-- A list of steps inside a larger document, whose items may be reported by their attributes. -/
def Steps.readPosted (v : Json) : Checked (List Step) :=
  asList (fun s => match s with
    | .obj fs => Step.ofFields (readSteps (depth s)) fs
    | _ => .issue .attributesExpected s) v

/-- Why a stored or given list of steps cannot be read. -/
inductive ReadFault where
  /-- A step has defects. -/
  | defects (issues : List Issue)
  /-- The value is neither a list nor something to go through. -/
  | notIterable

/-- Reads steps one by one: the first step with defects is the one reported. -/
def readEach : List Json → Except ReadFault Steps
  | [] => .ok []
  | v :: rest =>
    match Step.read v with
    | .bad is => .error (.defects is)
    | .ok s => (readEach rest).map (s :: ·)

/-- A list of steps as it is stored or given.  A value that stands for nothing is the empty flow; an object stands for
its names and a text for its characters, none of which is a step. -/
def Steps.read (v : Json) : Except ReadFault Steps :=
  if !v.truthy then .ok []
  else match v with
    | .arr xs => readEach xs
    | .obj fs => readEach (fs.map fun f => .str f.1)
    | .str s => readEach (s.toList.map fun c => .str c.toString)
    | _ => .error .notIterable

end Switchboard.Flow
