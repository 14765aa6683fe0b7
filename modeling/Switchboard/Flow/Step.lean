import Switchboard.Flow.Message
/-!
# Call flows

A flow is a list of steps.  Menus and schedules own further lists: one for each menu option, one for invalid input, one
for each schedule branch and the fallback; so a flow is a tree.  A step of a known type whose settings were left out is
`bare`: it does nothing when it runs.  A step of a type that is not known keeps its settings as they came.
-/
namespace Switchboard.Flow

/-- The known step types. -/
inductive StepType where
  | greeting | dial | simulcall | roundRobin | menu | schedule | keypadEntry | tag | voicemail | hangup
  deriving DecidableEq, Repr

namespace StepType

def all : List StepType :=
  [greeting, dial, simulcall, roundRobin, menu, schedule, keypadEntry, tag, voicemail, hangup]

def name : StepType → String
  | greeting => "greeting"
  | dial => "dial"
  | simulcall => "simulcall"
  | roundRobin => "round_robin"
  | menu => "menu"
  | schedule => "schedule"
  | keypadEntry => "keypad_entry"
  | tag => "tag"
  | voicemail => "voicemail"
  | hangup => "hangup"

def ofName? (s : String) : Option StepType := all.find? (fun t => t.name = s)

/-- Every type is read back from its name. -/
theorem ofName?_name (t : StepType) : ofName? t.name = some t := by cases t <;> decide

/-- Whether no step may follow one of this type. -/
def isTerminal : StepType → Bool
  | voicemail => true
  | hangup => true
  | _ => false

end StepType

/-- Preset lists of weekdays. -/
inductive DayPreset where
  | weekdays | weekends | everyday
  deriving DecidableEq, Repr

namespace DayPreset

def name : DayPreset → String
  | weekdays => "weekdays"
  | weekends => "weekends"
  | everyday => "everyday"

def ofName? (s : String) : Option DayPreset :=
  if s = "weekdays" then some weekdays
  else if s = "weekends" then some weekends
  else if s = "everyday" then some everyday
  else none

theorem ofName?_name (p : DayPreset) : ofName? p.name = some p := by cases p <;> decide

/-- The weekdays of a preset, Sunday being 0. -/
def days : DayPreset → List Int
  | weekdays => [1, 2, 3, 4, 5]
  | weekends => [0, 6]
  | everyday => [0, 1, 2, 3, 4, 5, 6]

end DayPreset

/-- On which weekdays a slot applies: a preset or a list, Sunday being 0. -/
inductive Days where
  | preset (p : DayPreset)
  | list (days : List Int)
  deriving DecidableEq, Repr

/-- A weekly opening time. -/
structure TimeSlot where
  days : Days
  startTime : Option String
  endTime : Option String
  allDay : Bool
  deriving DecidableEq, Repr

/-- Dial one destination. -/
structure Dial where
  destination : String
  timeout : Int
  callerId : Option String
  record : Bool
  deriving DecidableEq, Repr

/-- Dial several destinations at once. -/
structure Simulcall where
  destinations : List String
  timeout : Int
  callerId : Option String
  deriving DecidableEq, Repr

/-- Dial several destinations one after another. -/
structure RoundRobin where
  destinations : List String
  timeoutPerDestination : Int
  callerId : Option String
  deriving DecidableEq, Repr

/-- How a menu asks for a choice. -/
structure MenuPrompt where
  message : Message
  numDigits : Int
  timeout : Int
  retries : Int
  deriving DecidableEq, Repr

/-- Ask for digits and keep them. -/
structure KeypadEntry where
  message : Message
  variableName : String
  maxDigits : Int
  minDigits : Int
  finishOnKey : Bool
  timeout : Int
  deriving DecidableEq, Repr

/-- Mark the call. -/
structure Tag where
  tagName : String
  tagValue : Option String
  deriving DecidableEq, Repr

/-- Take a message after the beep. -/
structure Voicemail where
  greeting : Option Message
  maxLength : Int
  transcribe : Bool
  notificationEmail : Option String
  deriving DecidableEq, Repr

mutual

/-- One node of a flow. -/
structure Step where
  id : String
  label : Option String
  body : Body

/-- What a step does. -/
inductive Body where
  | greeting (message : Message)
  | dial (dial : Dial)
  | simulcall (dial : Simulcall)
  | roundRobin (dial : RoundRobin)
  | menu (prompt : MenuPrompt) (options : List MenuOption) (invalidInput : List Step)
  | schedule (timezone : String) (branches : List Branch) (fallback : List Step)
  | keypadEntry (entry : KeypadEntry)
  | tag (tag : Tag)
  | voicemail (voicemail : Voicemail)
  | hangup (message : Option Message)
  /-- A known type without settings. -/
  | bare (type : StepType)
  /-- A type that is not known, with its settings as they came. -/
  | unknown (type : String) (config : Json)

/-- A choice of a menu. -/
structure MenuOption where
  digit : String
  label : Option String
  steps : List Step

/-- A branch of a schedule. -/
structure Branch where
  id : String
  name : String
  slots : List TimeSlot
  steps : List Step

end

abbrev Steps := List Step

namespace Body

def type? : Body → Option StepType
  | .greeting _ => some .greeting
  | .dial _ => some .dial
  | .simulcall _ => some .simulcall
  | .roundRobin _ => some .roundRobin
  | .menu _ _ _ => some .menu
  | .schedule _ _ _ => some .schedule
  | .keypadEntry _ => some .keypadEntry
  | .tag _ => some .tag
  | .voicemail _ => some .voicemail
  | .hangup _ => some .hangup
  | .bare t => some t
  | .unknown _ _ => none

def typeName : Body → String
  | .unknown t _ => t
  | b => (b.type?.map StepType.name).getD ""

end Body

namespace Step

def typeName (s : Step) : String := s.body.typeName

def isKnown (s : Step) : Bool := s.body.type?.isSome

def isTerminal (s : Step) : Bool := s.body.type?.any StepType.isTerminal

end Step

/-! ## Nested lists -/

/-- Which of a step's lists is meant. -/
inductive Selector where
  | option (index : Nat)
  | invalidInput
  | branch (index : Nat)
  | fallback
  deriving DecidableEq, Repr

def Selector.text : Selector → String
  | .option i => "o" ++ toString i
  | .invalidInput => "i"
  | .branch i => "b" ++ toString i
  | .fallback => "f"

/-- A nested list with its selector and the name under which defects report it. -/
structure Child where
  selector : Selector
  name : String
  steps : List Step

def optionChildren : Nat → List MenuOption → List Child
  | _, [] => []
  | i, o :: rest => ⟨.option i, "option[" ++ o.digit ++ "]", o.steps⟩ :: optionChildren (i + 1) rest

def branchChildren : Nat → List Branch → List Child
  | _, [] => []
  | i, b :: rest => ⟨.branch i, "branch[" ++ b.name ++ "]", b.steps⟩ :: branchChildren (i + 1) rest

/-- The nested lists of a step, in order. -/
def Body.children : Body → List Child
  | .menu _ options invalid => optionChildren 0 options ++ [⟨.invalidInput, "invalidInput", invalid⟩]
  | .schedule _ branches fallback => branchChildren 0 branches ++ [⟨.fallback, "fallback", fallback⟩]
  | _ => []

def Step.children (s : Step) : List Child := s.body.children

def Body.messages : Body → List Message
  | .greeting m => [m]
  | .menu p _ _ => [p.message]
  | .keypadEntry e => [e.message]
  | .hangup (some m) => [m]
  | .voicemail v => v.greeting.toList
  | _ => []

/-! ## Walking the tree -/

/-- A step with the path of its list and its index there. -/
structure Visit where
  path : String
  index : Nat
  step : Step

/-- Where a visited step stands. -/
def Visit.place (v : Visit) : String := v.path ++ "[" ++ toString v.index ++ "]"

/-- The path of a nested list of the step at `index` of the list at `path`. -/
def childPath (path : String) (index : Nat) (name : String) : String :=
  path ++ "[" ++ toString index ++ "]." ++ name

mutual

/-- The steps of a list from `index` on and below them, depth first. -/
def walkFrom (path : String) (index : Nat) : List Step → List Visit
  | [] => []
  | ⟨id, label, body⟩ :: rest =>
    ⟨path, index, ⟨id, label, body⟩⟩ :: (walkBody path index body ++ walkFrom path (index + 1) rest)

def walkBody (path : String) (index : Nat) : Body → List Visit
  | .menu _ options invalid =>
    walkOptions path index options ++ walkFrom (childPath path index "invalidInput") 0 invalid
  | .schedule _ branches fallback =>
    walkBranches path index branches ++ walkFrom (childPath path index "fallback") 0 fallback
  | _ => []

def walkOptions (path : String) (index : Nat) : List MenuOption → List Visit
  | [] => []
  | ⟨digit, _, steps⟩ :: rest =>
    walkFrom (childPath path index ("option[" ++ digit ++ "]")) 0 steps ++ walkOptions path index rest

def walkBranches (path : String) (index : Nat) : List Branch → List Visit
  | [] => []
  | ⟨_, name, _, steps⟩ :: rest =>
    walkFrom (childPath path index ("branch[" ++ name ++ "]")) 0 steps ++ walkBranches path index rest

end

/-- Every step of a flow with its place, depth first. -/
def walk (steps : List Step) : List Visit := walkFrom "root" 0 steps

end Switchboard.Flow
