import Switchboard.Flow.Branch
import Switchboard.Flow.Schedule
import Switchboard.Service.Conference
/-!
# Running flows

A flow runs one callback at a time: each request names a step and the list it stands in, and is answered with what the
caller gets from there on.  In a list of the root or in one that a callback continues, a step that is done sends the caller
on to the next one by a redirect; inside a branch the next step follows in the same response.  Tags always go on at once.
Steps that dial store an attempt and put the caller into a conference; the flow resumes when the attempt is over.  A step
that fails is skipped.
-/
namespace Switchboard

open Switchboard.Flow (Step Body Branch Steps MenuOption StepType)

/-- How a list goes on after a step that is done. -/
inductive Mode where
  /-- By a redirect to the next step. -/
  | redirect
  /-- In the same response. -/
  | inline
  deriving DecidableEq, Repr

/-- What follows a step. -/
inductive Next where
  /-- Nothing: the response is complete. -/
  | stop
  /-- The next step, as the mode says. -/
  | advance
  /-- The next step, in the same response. -/
  | chain
  deriving DecidableEq, Repr

/-- The call that a request is about, and the line that it came in on. -/
structure CallContext where
  tenantId : String
  lineId : String
  callSid : String
  flowId : Option String
  fromNumber : Option String
  toNumber : Option String
  segmentNumber : Int
  /-- Whether calls of this flow are recorded. -/
  recordCalls : Bool
  deriving DecidableEq, Repr

/-- What a run gives: what the caller gets, and the tags it put on the call. -/
structure Rendering where
  verbs : Response
  tags : List Json

/-- What a step gives. -/
structure Outcome where
  rendering : Rendering
  next : Next

namespace Rendering

def ofVerbs (verbs : Response) : Rendering := ⟨verbs, []⟩

def append (a b : Rendering) : Rendering := ⟨a.verbs ++ b.verbs, a.tags ++ b.tags⟩

instance : Append Rendering := ⟨append⟩

end Rendering

namespace Outcome

def stop (verbs : Response) : Outcome := ⟨.ofVerbs verbs, .stop⟩

def advance (verbs : Response) : Outcome := ⟨.ofVerbs verbs, .advance⟩

/-- Nobody can be reached: the caller is told so. -/
def notAvailable : Outcome := advance [.say Wording.notAvailable]

end Outcome

namespace Work

/-! ## Steps that dial -/

/-- An attempt that a step makes. -/
structure Attempt where
  type : StepType
  targets : List DialTarget
  index : Int
  destinationCount : Nat
  timeout : Int
  callerId : Option String
  record : Bool

/-- Where the end of an attempt's dial is reported. -/
def dialAction (urls : Callbacks) (c : CallContext) (a : Attempt) (step : Nat) (branch : Option String) (seq : Int) : String :=
  if a.type = .roundRobin then
    urls.flow c.tenantId c.lineId ⟨step, some "round_robin", branch, some a.index, none, some seq⟩
  else urls.dialStatus c.tenantId c.lineId step branch (some seq)

/-- Stores an attempt and puts the caller into the conference of the segment. -/
def bridge (c : CallContext) (a : Attempt) (step : Nat) (branch : Option String) : Work Outcome := do
  let resume : Resume :=
    ⟨c.flowId, some c.lineId, some step, branch, a.index, some a.type.name, a.destinationCount⟩
  let callerId := match Flow.given a.callerId with
    | some n => some n
    | none => c.toNumber
  match ← prepareAttempt c.callSid c.segmentNumber resume a.targets callerId a.timeout a.record with
  | none => return .notAvailable
  | some s =>
    let urls ← callbacks
    let seq := s.scratch.attemptSeq
    return .stop [.bridge {
      room := (Flow.given s.conferenceName).getD (Naming.conference c.callSid c.segmentNumber)
      statusCallback := urls.conference c.tenantId c.callSid c.segmentNumber (some seq)
      waitUrl := urls.ring
      action := some (dialAction urls c a step branch seq)
      record := a.record
      recordingCallback := some (urls.recording c.tenantId c.callSid (some c.segmentNumber))
      endOnExit := true }]

def runDial (c : CallContext) (d : Flow.Dial) (step : Nat) (branch : Option String) : Work Outcome := do
  match ← resolve? c.tenantId d.destination with
  | none => return .notAvailable
  | some t => bridge c ⟨.dial, [t], 0, 1, d.timeout, d.callerId, d.record || c.recordCalls⟩ step branch

/-- Dials every destination that leads somewhere. -/
def runSimulcall (c : CallContext) (d : Flow.Simulcall) (step : Nat) (branch : Option String) : Work Outcome := do
  match ← resolveAll c.tenantId d.destinations with
  | [] => return .notAvailable
  | targets =>
    bridge c ⟨.simulcall, targets, 0, d.destinations.length, d.timeout, d.callerId, c.recordCalls⟩ step branch

/-- Finds the first of some destinations that leads somewhere, with its index. -/
def firstResolved (tenant : String) : Int → List String → Work (Option (Int × DialTarget))
  | _, [] => return none
  | i, d :: rest => do
    match ← resolve? tenant d with
    | some t => return some (i, t)
    | none => firstResolved tenant (i + 1) rest

/-- The destinations from an index on.  A negative index counts from the end, where it reaches so far, and goes on with the
first one after the last. -/
def destinationsFrom (ds : List String) (index : Int) : Option (List String) :=
  if 0 ≤ index then some (ds.drop index.toNat)
  else if -index ≤ ds.length then some (ds.drop (ds.length + index).toNat ++ ds)
  else none

/-- Dials the first destination from an index on that leads somewhere. -/
def runRoundRobin (c : CallContext) (d : Flow.RoundRobin) (step : Nat) (branch : Option String) (attempt : Int) :
    Work Outcome := do
  match destinationsFrom d.destinations attempt with
  | none => Task.fail .kind
  | some ds =>
    match ← firstResolved c.tenantId attempt ds with
    | none => return .notAvailable
    | some (i, t) =>
      bridge c ⟨.roundRobin, [t], i, d.destinations.length, d.timeoutPerDestination, d.callerId, c.recordCalls⟩ step branch

/-! ## Other steps -/

def promptVerbs (m : Option Flow.Message) : Response := (Prompt.ofMessage? m).toList.map .prompt

/-- Asks for a choice.  Without one the menu is played again, some times. -/
def menuVerbs (urls : Callbacks) (c : CallContext) (p : Flow.MenuPrompt) (step : Nat) (branch : Option String)
    (replays : Int) : Response :=
  let position (action : String) (attempt : Option Int) : String :=
    urls.flow c.tenantId c.lineId ⟨step, some action, branch, attempt, none, none⟩
  [.gather ⟨Prompt.ofMessage p.message, p.numDigits, p.timeout, none, position "menu" none⟩,
   .redirect (if replays < p.retries then position "menu_retry" (some (replays + 1)) else position "menu_invalid" none)]

def keypadVerbs (urls : Callbacks) (c : CallContext) (k : Flow.KeypadEntry) (step : Nat) (branch : Option String) :
    Response :=
  [.gather ⟨Prompt.ofMessage k.message, k.maxDigits, k.timeout, some (if k.finishOnKey then "#" else ""),
     urls.flow c.tenantId c.lineId ⟨step, some "keypad", branch, none, some k.variableName, none⟩⟩,
   .redirect (urls.flow c.tenantId c.lineId (.at (step + 1) branch))]

/-- Takes a message after a greeting: the step's own if it has anything to say or play. -/
def voicemailVerbs (urls : Callbacks) (c : CallContext) (v : Flow.Voicemail) : Response :=
  let greeting := match v.greeting with
    | some m =>
      if (Flow.given m.text).isSome || (Flow.given m.recordingUrl).isSome then promptVerbs (some m)
      else [.say Wording.voicemailGreeting]
    | none => [.say Wording.voicemailGreeting]
  greeting ++
    [.record {
      maxLength := v.maxLength
      action := urls.voicemail c.tenantId c.callSid
      transcribe := v.transcribe
      transcribeCallback := if v.transcribe then some (urls.transcription c.tenantId c.callSid) else none
      recordingCallback := urls.recording c.tenantId c.callSid none },
     .hangup]

def quietly {α : Type} (t : Work α) : Work Unit := Task.recover (fun _ => return ()) (discard t)

def runTag (c : CallContext) (t : Flow.Tag) : Work Outcome := do
  quietly (mutate c.callSid c.segmentNumber none (Segment.addTag t.tagName t.tagValue))
  return ⟨⟨[], [Segment.tagJson t.tagName t.tagValue]⟩, .chain⟩

/-! ## Lists of steps -/

def goTo (urls : Callbacks) (c : CallContext) (step : Nat) (branch : Option String) : Verb :=
  .redirect (urls.flow c.tenantId c.lineId (.at step branch))

/-- A failed step is done without a trace. -/
def skipFailed (t : Work Outcome) : Work Outcome := Task.recover (fun _ => return .advance []) t

mutual

/-- Runs a list from a step on.  The first step may be told which attempt it makes; none if that cannot be read. -/
def runFrom (c : CallContext) (mode : Mode) (branch : Option String) (index : Nat) (attempt : Option Int) :
    List Step → Work Rendering
  | [] => return .ofVerbs Response.goodbye
  | ⟨_, _, body⟩ :: rest => do
    let o ← skipFailed (runBody c branch index attempt body)
    match o.next, mode with
    | .stop, _ => return o.rendering
    | .advance, .redirect => return o.rendering ++ .ofVerbs [goTo (← callbacks) c (index + 1) branch]
    | _, _ => return o.rendering ++ (← runFrom c mode branch (index + 1) (some 0) rest)

def runBody (c : CallContext) (branch : Option String) (index : Nat) (attempt : Option Int) : Body → Work Outcome
  | .greeting m => return .advance (promptVerbs (some m))
  | .dial d => runDial c d index branch
  | .simulcall d => runSimulcall c d index branch
  | .roundRobin d =>
    match attempt with
    | some n => runRoundRobin c d index branch n
    | none => Task.fail .kind
  | .menu p _ _ => do
    let urls ← callbacks
    match attempt with
    | some n => return .stop (menuVerbs urls c p index branch n)
    | none => Task.fail .kind
  | .schedule timezone branches fallback => do
    let (weekday, minute) ← Task.asks fun s => Flow.localTime s.zones timezone s.now
    match ← runBranches c branch index weekday minute 0 branches with
    | some o => return o
    | none =>
      if fallback.isEmpty then return .advance []
      else
        return ⟨← runFrom c .inline (some (Flow.branchPath branch index Flow.Selector.fallback.text)) 0 (some 0) fallback,
          .stop⟩
  | .keypadEntry k => do return .stop (keypadVerbs (← callbacks) c k index branch)
  | .tag t => runTag c t
  | .voicemail v => do return .stop (voicemailVerbs (← callbacks) c v)
  | .hangup m => return .stop (promptVerbs m ++ [.hangup])
  | .bare _ => Task.fail .kind
  | .unknown _ _ => return .advance []

/-- Runs the first branch that is open, if one is. -/
def runBranches (c : CallContext) (branch : Option String) (index : Nat) (weekday minute : Int) (i : Nat) :
    List Branch → Work (Option Outcome)
  | [] => return none
  | ⟨_, _, slots, steps⟩ :: rest =>
    if slots.any (fun s => s.covers weekday minute) then
      if steps.isEmpty then return some (.advance [])
      else do
        let path := Flow.branchPath branch index (Flow.Selector.branch i).text
        return some ⟨← runFrom c .inline (some path) 0 (some 0) steps, .stop⟩
    else runBranches c branch index weekday minute (i + 1) rest

end

/-- Runs a list from an index on; outside the list the caller is told goodbye. -/
def runAt (c : CallContext) (mode : Mode) (branch : Option String) (index : Int) (attempt : Option Int) (steps : List Step) :
    Work Rendering :=
  if 0 ≤ index then runFrom c mode branch index.toNat attempt (steps.drop index.toNat)
  else return .ofVerbs Response.goodbye

/-- Runs a flow from an index of the list at a branch.  Where the path does not lead to a list the call ends. -/
def execute (steps : Steps) (c : CallContext) (mode : Mode) (branch : Option String) (index : Int) (attempt : Option Int) :
    Work Rendering :=
  match Flow.resolveBranch steps branch with
  | .error _ => return .ofVerbs Response.hangup
  | .ok current => runAt c mode branch index attempt current

/-! ## Callbacks of steps -/

/-- What a callback asks a flow to do. -/
inductive Action where
  | menu
  | menuInvalid
  | menuRetry
  | keypad
  | roundRobinRedirect
  | other
  deriving DecidableEq, Repr

def Action.ofName? (name : Option String) : Action :=
  match name with
  | some "menu" => menu
  | some "menu_invalid" => menuInvalid
  | some "menu_retry" => menuRetry
  | some "keypad" => keypad
  | some "round_robin_redirect" => roundRobinRedirect
  | _ => other

/-- What a callback carries. -/
structure Reply where
  action : Action
  digits : Option String
  /-- The attempt in the address. -/
  attempt : Int
  /-- The attempt among what the provider sent; none if it cannot be read. -/
  sentAttempt : Option Int
  /-- The variable that digits are kept under. -/
  var : Option String

def stepOf (steps : List Step) (index : Int) : Option Step := if 0 ≤ index then steps[index.toNat]? else none

/-- The first option with the digits, with its index. -/
def optionOf (digits : String) : Nat → List MenuOption → Option (Nat × MenuOption)
  | _, [] => none
  | i, o :: rest => if o.digit = digits then some (i, o) else optionOf digits (i + 1) rest

/-- Serves the choice in a menu.  An option without steps goes on behind the menu; another input without steps of its own
ends the call. -/
def runChoice (c : CallContext) (branch : Option String) (index : Int) (digits : Option String) (steps : List Step) :
    Work Rendering :=
  let nested (selector : Flow.Selector) (list : List Step) : Work Rendering :=
    runFrom c .inline (some (Flow.branchPath branch index selector.text)) 0 (some 0) list
  match (stepOf steps index).map Step.body with
  | some (.menu _ options invalid) =>
    match digits.bind fun d => optionOf d 0 options with
    | some (i, o) =>
      if o.steps.isEmpty then runAt c .redirect branch (index + 1) (some 0) steps else nested (.option i) o.steps
    | none => if invalid.isEmpty then return .ofVerbs Response.hangup else nested .invalidInput invalid
  | _ => return .ofVerbs Response.hangup

/-- The variable and the least number of digits of a keypad step; those of no particular step otherwise. -/
def keypadOf (step : Option Step) (var : Option String) : String × Int :=
  match step.map Step.body with
  | some (.keypadEntry k) => ((Flow.given var).getD k.variableName, k.minDigits)
  | _ => ((Flow.given var).getD "keypad_input", 1)

/-- Keeps digits that were entered, if there are enough of them, and goes on: the response and what was kept. -/
def runKeypad (c : CallContext) (branch : Option String) (index : Int) (digits var : Option String) (steps : List Step) :
    Work (Rendering × List (String × String)) := do
  let (name, least) := keypadOf (stepOf steps index) var
  let kept := match Flow.given digits with
    | some d => if least ≤ d.length then [(name, d)] else []
    | none => []
  kept.forM fun v => quietly (mutate c.callSid c.segmentNumber none (Segment.setVariable v.1 v.2))
  return (← runAt c .redirect branch (index + 1) (some 0) steps, kept)

/-- Goes on with a flow from a callback: the response and the variables that were kept. -/
def handleAction (steps : Steps) (c : CallContext) (branch : Option String) (index : Int) (r : Reply) :
    Work (Rendering × List (String × String)) :=
  match Flow.resolveBranch steps branch with
  | .error _ => return (.ofVerbs Response.hangup, [])
  | .ok current =>
    let plain (t : Work Rendering) : Work (Rendering × List (String × String)) := do return (← t, [])
    match r.action with
    | .menu => plain (runChoice c branch index (Flow.given r.digits) current)
    | .menuInvalid => plain (runChoice c branch index none current)
    | .keypad => runKeypad c branch index r.digits r.var current
    | .menuRetry | .roundRobinRedirect => plain (runAt c .redirect branch index (some r.attempt) current)
    | .other => plain (runAt c .redirect branch index r.sentAttempt current)

end Work

end Switchboard
