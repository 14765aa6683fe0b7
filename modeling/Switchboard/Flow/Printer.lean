import Switchboard.Flow.Step
/-!
# Writing flows

A flow is written with camel-case names in a fixed order, absent optional values left out and defaults filled in.
-/
namespace Switchboard.Flow

abbrev Fields := List (String × Json)

/-- A field that is left out where there is no value. -/
def optionalField (name : String) : Option String → Fields
  | none => []
  | some s => [(name, .str s)]

def Message.toJson (m : Message) : Json :=
  .obj ([("type", .str m.kind.name)] ++ optionalField "text" m.text ++ optionalField "recordingUrl" m.recordingUrl ++
    [("voice", .str m.voice.name), ("language", .str m.language.name)] ++
    optionalField "generatedAudioUrl" m.generatedAudioUrl)

/-- A prompt that is left out where there is none. -/
def messageField (name : String) : Option Message → Fields
  | none => []
  | some m => [(name, m.toJson)]

def Days.toJson : Days → Json
  | .preset p => .str p.name
  | .list ds => .arr (ds.map .int)

def TimeSlot.toJson (s : TimeSlot) : Json :=
  .obj ([("days", s.days.toJson)] ++ optionalField "startTime" s.startTime ++ optionalField "endTime" s.endTime ++
    [("allDay", .bool s.allDay)])

def Dial.toJson (d : Dial) : Json :=
  .obj ([("destination", .str d.destination), ("timeout", .int d.timeout)] ++ optionalField "callerId" d.callerId ++
    [("record", .bool d.record)])

def Simulcall.toJson (d : Simulcall) : Json :=
  .obj ([("destinations", .arr (d.destinations.map .str)), ("timeout", .int d.timeout)] ++
    optionalField "callerId" d.callerId)

def RoundRobin.toJson (d : RoundRobin) : Json :=
  .obj ([("destinations", .arr (d.destinations.map .str)), ("timeoutPerDestination", .int d.timeoutPerDestination)] ++
    optionalField "callerId" d.callerId)

def KeypadEntry.toJson (k : KeypadEntry) : Json :=
  .obj [("message", k.message.toJson), ("variableName", .str k.variableName), ("maxDigits", .int k.maxDigits),
    ("minDigits", .int k.minDigits), ("finishOnKey", .bool k.finishOnKey), ("timeout", .int k.timeout)]

def Tag.toJson (t : Tag) : Json :=
  .obj ([("tagName", .str t.tagName)] ++ optionalField "tagValue" t.tagValue)

def Voicemail.toJson (v : Voicemail) : Json :=
  .obj (messageField "greeting" v.greeting ++
    [("maxLength", .int v.maxLength), ("transcribe", .bool v.transcribe)] ++
    optionalField "notificationEmail" v.notificationEmail)

mutual

def Step.toJson : Step → Json
  | ⟨id, label, body⟩ =>
    .obj ([("id", .str id), ("type", .str body.typeName)] ++ optionalField "label" label ++ body.toFields)

def Body.toFields : Body → Fields
  | .greeting m => [("config", .obj [("message", m.toJson)])]
  | .dial d => [("config", d.toJson)]
  | .simulcall d => [("config", d.toJson)]
  | .roundRobin d => [("config", d.toJson)]
  | .menu p options invalid =>
    [("config", .obj [("message", p.message.toJson), ("options", .arr (optionsToJson options)),
      ("numDigits", .int p.numDigits), ("timeout", .int p.timeout), ("retries", .int p.retries),
      ("invalidInputSteps", .arr (stepsToJson invalid))])]
  | .schedule timezone branches fallback =>
    [("config", .obj [("timezone", .str timezone), ("branches", .arr (branchesToJson branches)),
      ("fallbackSteps", .arr (stepsToJson fallback))])]
  | .keypadEntry k => [("config", k.toJson)]
  | .tag t => [("config", t.toJson)]
  | .voicemail v => [("config", v.toJson)]
  | .hangup m => [("config", .obj (messageField "message" m))]
  | .bare _ => [("config", .obj [])]
  | .unknown _ .null => []
  | .unknown _ config => [("config", config)]

def optionsToJson : List MenuOption → List Json
  | [] => []
  | ⟨digit, label, steps⟩ :: rest =>
    .obj ([("digit", .str digit)] ++ optionalField "label" label ++ [("steps", .arr (stepsToJson steps))]) ::
      optionsToJson rest

def branchesToJson : List Branch → List Json
  | [] => []
  | ⟨id, name, slots, steps⟩ :: rest =>
    .obj [("id", .str id), ("name", .str name), ("timeSlots", .arr (slots.map TimeSlot.toJson)),
      ("steps", .arr (stepsToJson steps))] :: branchesToJson rest

def stepsToJson : List Step → List Json
  | [] => []
  | s :: rest => s.toJson :: stepsToJson rest

end

def Steps.toJson (steps : Steps) : Json := .arr (stepsToJson steps)

/-- A visited step: where it stands, what it is, and its lists and prompts. -/
def Visit.toJson (v : Visit) : Json :=
  .obj [("path", .str v.path), ("index", .ofNat v.index), ("id", .str v.step.id), ("terminal", .bool v.step.isTerminal),
    ("known", .bool v.step.isKnown),
    ("children", .arr (v.step.children.map fun c =>
      .arr [.str c.selector.text, .str c.name, .ofNat c.steps.length])),
    ("messages", .arr (v.step.body.messages.map fun m => .arr [.ofStr? m.text, .bool m.needsSynthesis]))]

end Switchboard.Flow
