import Switchboard.Markup
import Switchboard.Flow.Step
/-!
# What the provider is told to do

A response is a list of verbs that the provider carries out one after another on a live call.
-/
namespace Switchboard

open Switchboard.Flow (Message Language)

/-- Something that the caller hears. -/
inductive Prompt where
  | say (text : String) (language : Option Language)
  | play (url : String)
  deriving DecidableEq, Repr

/-- Collect digits, with a prompt meanwhile. -/
structure Gather where
  prompt : Option Prompt
  numDigits : Int
  timeout : Int
  /-- The key that ends the input: none for the provider's own, empty for no such key. -/
  finishOnKey : Option String
  action : String
  deriving DecidableEq, Repr

/-- Record the caller after the beep. -/
structure Record where
  maxLength : Int
  action : String
  transcribe : Bool
  transcribeCallback : Option String
  recordingCallback : String
  deriving DecidableEq, Repr

/-- Put a caller into a conference. -/
structure Bridge where
  room : String
  statusCallback : String
  waitUrl : String
  action : Option String
  record : Bool
  recordingCallback : Option String
  endOnExit : Bool
  deriving DecidableEq, Repr

/-- Dial a number for a browser user. -/
structure CallOut where
  number : String
  callerId : String
  action : String
  recordingCallback : String
  deriving DecidableEq, Repr

/-- One instruction. -/
inductive Verb where
  | prompt (p : Prompt)
  | pause (seconds : Nat)
  | hangup
  | redirect (url : String)
  | gather (g : Gather)
  | record (r : Record)
  | bridge (b : Bridge)
  /-- Let an answered agent into the conference of a caller. -/
  | join (room : Option String) (statusCallback : Option String)
  | callOut (c : CallOut)
  deriving DecidableEq, Repr

abbrev Response := List Verb

/-! ## Wordings -/

namespace Wording

def unavailable : String := "Thank you for calling. We are currently unavailable. Please try again later."
def goodbye : String := "Goodbye."
def notAvailable : String := "The person you are trying to reach is not available."
def voicemailGreeting : String := "Please leave a message after the beep."
def voicemailThanks : String := "Thank you for your message. Goodbye."
def transferHold : String := "Please hold while we connect you."
def ringWelcome : String := "Please wait while we connect your call."
def ringHold : String := "Please continue to hold."

end Wording

def Verb.say (text : String) : Verb := .prompt (.say text none)

/-- What a prompt of a flow plays or says: a recording, else synthesized speech, else the text, else nothing. -/
def Prompt.ofMessage (m : Message) : Option Prompt :=
  match (if m.kind = .recording then Flow.given m.recordingUrl else none) with
  | some url => some (.play url)
  | none =>
    match Flow.given m.generatedAudioUrl with
    | some url => some (.play url)
    | none => (Flow.given m.text).map fun t => .say t (some m.language)

def Prompt.ofMessage? (m : Option Message) : Option Prompt := m.bind Prompt.ofMessage

namespace Response

/-- The caller is told that nobody is there, and the call ends. -/
def unavailable : Response := [.say Wording.unavailable, .hangup]

def goodbye : Response := [.say Wording.goodbye, .hangup]

def hangup : Response := [.hangup]

def empty : Response := []

def redirect (url : String) : Response := [.redirect url]

def voicemailThanks : Response := [.say Wording.voicemailThanks, .hangup]

def ring : Response :=
  [.say Wording.ringWelcome] ++ (List.replicate 5 [Verb.pause 10, .say Wording.ringHold]).flatten ++ [.pause 30]

def agentJoin (room : Option String) (statusCallback : Option String) : Response := [.join room statusCallback]

end Response

/-! ## Writing -/

namespace Verb

def sayVoice : String := "alice"

def conferenceEvents : String := "start end join leave"

def boolText (b : Bool) : String := if b then "true" else "false"

def optionalAttribute (name : String) : Option String → List (String × String)
  | none => []
  | some v => [(name, v)]

def promptMarkup : Prompt → Markup
  | .say text language =>
    .element "Say" ([("voice", sayVoice)] ++ optionalAttribute "language" (language.map Language.name)) text []
  | .play url => .element "Play" [] url []

/-- The attributes that a recording adds where it is wanted. -/
def recordingAttributes (mode : String) (callback : Option String) : List (String × String) :=
  [("record", mode)] ++ optionalAttribute "recordingStatusCallback" callback ++
    [("recordingStatusCallbackMethod", "POST"), ("recordingStatusCallbackEvent", "completed")]

def actionAttributes (action : String) : List (String × String) := [("action", action), ("method", "POST")]

def bridgeMarkup (b : Bridge) : Markup :=
  let dial := match Flow.given b.action with
    | some a => actionAttributes a
    | none => []
  .element "Dial" dial ""
    [.element "Conference"
      ([("startConferenceOnEnter", "true"), ("endConferenceOnExit", boolText b.endOnExit), ("beep", "false"),
        ("waitUrl", b.waitUrl), ("waitMethod", "GET"), ("statusCallback", b.statusCallback),
        ("statusCallbackEvent", conferenceEvents), ("statusCallbackMethod", "POST")] ++
        (if b.record then recordingAttributes "record-from-start" b.recordingCallback else [])) b.room []]

def joinMarkup (room statusCallback : Option String) : Markup :=
  .element "Dial" [] ""
    [.element "Conference"
      ([("startConferenceOnEnter", "true"), ("endConferenceOnExit", "false"), ("beep", "false")] ++
        optionalAttribute "statusCallback" statusCallback ++
        (if (Flow.given statusCallback).isSome then
          [("statusCallbackEvent", conferenceEvents), ("statusCallbackMethod", "POST")] else [])) (room.getD "") []]

def gatherMarkup (g : Gather) : Markup :=
  .element "Gather"
    ([("numDigits", toString g.numDigits), ("timeout", toString g.timeout)] ++ optionalAttribute "finishOnKey" g.finishOnKey ++
      actionAttributes g.action) "" (g.prompt.toList.map promptMarkup)

def recordMarkup (r : Record) : Markup :=
  .element "Record"
    ([("maxLength", toString r.maxLength), ("playBeep", "true"), ("transcribe", boolText r.transcribe)] ++
      actionAttributes r.action ++ optionalAttribute "transcribeCallback" r.transcribeCallback ++
      [("recordingStatusCallback", r.recordingCallback), ("recordingStatusCallbackMethod", "POST")]) "" []

def callOutMarkup (c : CallOut) : Markup :=
  .element "Dial"
    ([("callerId", c.callerId)] ++ actionAttributes c.action ++
      recordingAttributes "record-from-answer-dual" (some c.recordingCallback)) ""
    [.element "Number" [] c.number []]

def markup : Verb → Markup
  | .prompt p => promptMarkup p
  | .pause n => .element "Pause" [("length", toString n)] "" []
  | .hangup => .element "Hangup" [] "" []
  | .redirect url => .element "Redirect" [("method", "POST")] url []
  | .gather g => gatherMarkup g
  | .record r => recordMarkup r
  | .bridge b => bridgeMarkup b
  | .join room callback => joinMarkup room callback
  | .callOut c => callOutMarkup c

end Verb

namespace Response

def render (r : Response) : String := (Markup.element "Response" [] "" (r.map Verb.markup)).document

end Response

end Switchboard
