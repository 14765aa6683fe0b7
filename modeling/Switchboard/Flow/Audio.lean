import Switchboard.Flow.Step
/-!
# Speech for prompts

Before a flow is saved, speech is synthesized for every text prompt that has none.  Prompts are visited in walk order; a
prompt for which no speech is made stays as it is.
-/
namespace Switchboard.Flow

variable {m : Type → Type} [Monad m]

/-- Makes speech for a text in a voice; the result is where it is stored. -/
abbrev Synthesizer (m : Type → Type) := String → Voice → m (Option String)

/-- A prompt with speech, and how many prompts gained any: none or one. -/
def Message.attach (synthesize : Synthesizer m) (message : Message) : m (Message × Nat) :=
  if message.needsSynthesis then do
    let url ← synthesize (message.text.getD "") message.voice
    match given url with
    | some u => return ({ message with generatedAudioUrl := some u }, 1)
    | none => return (message, 0)
  else return (message, 0)

def attachOption (synthesize : Synthesizer m) : Option Message → m (Option Message × Nat)
  | none => return (none, 0)
  | some message => do
    let (message, n) ← message.attach synthesize
    return (some message, n)

mutual

/-- A step with speech for its own prompts and those below it, and how many gained any. -/
def Step.attach (synthesize : Synthesizer m) : Step → m (Step × Nat)
  | ⟨id, label, body⟩ => do
    let (body, n) ← body.attach synthesize
    return (⟨id, label, body⟩, n)

def Body.attach (synthesize : Synthesizer m) : Body → m (Body × Nat)
  | .greeting message => do
    let (message, n) ← message.attach synthesize
    return (.greeting message, n)
  | .menu prompt options invalid => do
    let (message, n) ← prompt.message.attach synthesize
    let (options, k) ← attachOptions synthesize options
    let (invalid, l) ← attachSteps synthesize invalid
    return (.menu { prompt with message } options invalid, n + k + l)
  | .schedule timezone branches fallback => do
    let (branches, n) ← attachBranches synthesize branches
    let (fallback, k) ← attachSteps synthesize fallback
    return (.schedule timezone branches fallback, n + k)
  | .keypadEntry entry => do
    let (message, n) ← entry.message.attach synthesize
    return (.keypadEntry { entry with message }, n)
  | .voicemail voicemail => do
    let (greeting, n) ← attachOption synthesize voicemail.greeting
    return (.voicemail { voicemail with greeting }, n)
  | .hangup message => do
    let (message, n) ← attachOption synthesize message
    return (.hangup message, n)
  | .dial d => return (.dial d, 0)
  | .simulcall d => return (.simulcall d, 0)
  | .roundRobin d => return (.roundRobin d, 0)
  | .tag t => return (.tag t, 0)
  | .bare t => return (.bare t, 0)
  | .unknown t c => return (.unknown t c, 0)

def attachOptions (synthesize : Synthesizer m) : List MenuOption → m (List MenuOption × Nat)
  | [] => return ([], 0)
  | ⟨digit, label, steps⟩ :: rest => do
    let (steps, n) ← attachSteps synthesize steps
    let (rest, k) ← attachOptions synthesize rest
    return (⟨digit, label, steps⟩ :: rest, n + k)

def attachBranches (synthesize : Synthesizer m) : List Branch → m (List Branch × Nat)
  | [] => return ([], 0)
  | ⟨id, name, slots, steps⟩ :: rest => do
    let (steps, n) ← attachSteps synthesize steps
    let (rest, k) ← attachBranches synthesize rest
    return (⟨id, name, slots, steps⟩ :: rest, n + k)

def attachSteps (synthesize : Synthesizer m) : List Step → m (List Step × Nat)
  | [] => return ([], 0)
  | s :: rest => do
    let (s, n) ← s.attach synthesize
    let (rest, k) ← attachSteps synthesize rest
    return (s :: rest, n + k)

end

/-- A flow with speech for its prompts, and how many prompts gained any. -/
def attachAudio (synthesize : Synthesizer m) (steps : Steps) : m (Steps × Nat) := attachSteps synthesize steps

end Switchboard.Flow
