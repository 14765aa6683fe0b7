import Switchboard.Json.Basic
/-!
# Prompts

A prompt is text to be spoken or a recording to be played.  Text is spoken by the provider unless speech was synthesized
for it in advance.
-/
namespace Switchboard.Flow

/-- The voices that speech is synthesized in. -/
inductive Voice where
  | alloy | ash | ballad | cedar | coral | echo | fable | marin | nova | onyx | sage | shimmer
  deriving DecidableEq, Repr

namespace Voice

def all : List Voice :=
  [alloy, ash, ballad, cedar, coral, echo, fable, marin, nova, onyx, sage, shimmer]

def name : Voice → String
  | alloy => "alloy"
  | ash => "ash"
  | ballad => "ballad"
  | cedar => "cedar"
  | coral => "coral"
  | echo => "echo"
  | fable => "fable"
  | marin => "marin"
  | nova => "nova"
  | onyx => "onyx"
  | sage => "sage"
  | shimmer => "shimmer"

def ofName? (s : String) : Option Voice := all.find? (fun v => v.name = s)

/-- Every voice is read back from its name. -/
theorem ofName?_name (v : Voice) : ofName? v.name = some v := by cases v <;> decide

end Voice

/-- The languages that prompts are spoken in. -/
inductive Language where
  | enUS | enGB | esES | esMX | frFR
  deriving DecidableEq, Repr

namespace Language

def all : List Language := [enUS, enGB, esES, esMX, frFR]

def name : Language → String
  | enUS => "en-US"
  | enGB => "en-GB"
  | esES => "es-ES"
  | esMX => "es-MX"
  | frFR => "fr-FR"

def ofName? (s : String) : Option Language := all.find? (fun l => l.name = s)

/-- Every language is read back from its name. -/
theorem ofName?_name (l : Language) : ofName? l.name = some l := by cases l <;> decide

end Language

/-- What a prompt is. -/
inductive MessageKind where
  | tts
  | recording
  deriving DecidableEq, Repr

namespace MessageKind

def name : MessageKind → String
  | tts => "tts"
  | recording => "recording"

def ofName? (s : String) : Option MessageKind :=
  if s = "tts" then some tts else if s = "recording" then some recording else none

theorem ofName?_name (k : MessageKind) : ofName? k.name = some k := by cases k <;> decide

end MessageKind

/-- A prompt. -/
structure Message where
  kind : MessageKind
  text : Option String
  recordingUrl : Option String
  voice : Voice
  language : Language
  /-- Where synthesized speech for the text is stored. -/
  generatedAudioUrl : Option String
  deriving DecidableEq, Repr

/-- A text that is there and not empty. -/
def given : Option String → Option String
  | some s => if s = "" then none else some s
  | none => none

theorem given_eq_some {v : Option String} {s : String} : given v = some s ↔ v = some s ∧ s ≠ "" := by
  cases v with
  | none => exact iff_of_false (fun h => nomatch h) fun h => nomatch h.1
  | some t =>
    by_cases ht : t = ""
    · rw [given, if_pos ht]
      exact iff_of_false (fun h => nomatch h) fun h => h.2 (Option.some.inj h.1 ▸ ht)
    · rw [given, if_neg ht]
      exact ⟨fun h => ⟨h, Option.some.inj h ▸ ht⟩, And.left⟩

theorem given_given (v : Option String) : given (given v) = given v := by
  cases h : given v with
  | none => rfl
  | some s => exact given_eq_some.2 ⟨rfl, (given_eq_some.1 h).2⟩

/-- Whether speech has still to be synthesized for a prompt. -/
def Message.needsSynthesis (m : Message) : Bool :=
  m.kind = .tts && (given m.text).isSome && (given m.generatedAudioUrl).isNone

end Switchboard.Flow
