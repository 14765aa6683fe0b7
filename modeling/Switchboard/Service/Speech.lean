import Switchboard.Digest.Sha256
import Switchboard.Flow.Audio
import Switchboard.Media
import Switchboard.Service.State
import Switchboard.Store.Speech
import Switchboard.Text.Blank
/-!
# Reading prompts aloud

Speech is made once for each text and voice.  A provider that fails is spared for a while; prompts without speech are said
by the telephone provider.
-/
namespace Switchboard.Work

/-- How often the reading of prompts may fail in a row, and for how long it then rests. -/
def readingLimits : BreakerLimits Time.Instant := ⟨3, 60 * Time.second⟩

/-- Keeps a file: its address. -/
def storeMedia (content folder name : String) : Work String := do
  Task.update fun s => { s with media := putEntry (Media.place folder name) content s.media }
  return Media.url (← settings).mediaBaseUrl folder name

def endReading (succeeded : Bool) (rest : List (Option String)) : Work Unit :=
  Task.update fun s => { s with studio := { s.studio with
    readings := some rest
    readingBreaker := s.studio.readingBreaker.finish readingLimits s.now succeeded } }

/-- Has a text read aloud: the audio, none where the provider is not there, rests or fails. -/
def readAloud (text : String) (voice : Flow.Voice) : Work (Option String) :=
  Task.look fun s =>
    match s.studio.readings with
    | none => return none
    | some script => do
      let (allowed, breaker) := s.studio.readingBreaker.start readingLimits s.now
      Task.update fun s => { s with studio := { s.studio with readingBreaker := breaker } }
      if allowed then
        note (.speak ⟨s.settings.speechModel, voice.name, text⟩)
        match script with
        | some audio :: rest => do
          endReading true rest
          return some audio
        | none :: rest => do
          endReading false rest
          return none
        | [] => do
          endReading false []
          return none
      else return none

/-- Speech for a text: its address; none where there is none.  A voice that is not known is replaced. -/
def synthesize (text : String) (voice : Flow.Voice) : Work (Option String) := do
  if Text.trim text = "" then return none
  else
    let digest := Digest.Sha256.ofText text
    match Flow.given (← query (Store.speechOf digest voice.name)) with
    | some address => return some address
    | none =>
      match Flow.given (← readAloud text voice) with
      | none => return none
      | some audio => do
        let address ← storeMedia audio "tts" (digest ++ "_" ++ voice.name ++ ".mp3")
        let now ← now
        statement fun db => .ok ((), db.putSpeech ⟨digest, voice.name, text, address, .utc now⟩)
        return some address

end Switchboard.Work

namespace Switchboard.Flow

/-- Speech that may be missing: a failure leaves the prompt without. -/
def sparing {σ ε : Type} (synthesize : Synthesizer (Task σ ε)) : Synthesizer (Task σ ε) := fun text voice =>
  Task.recover (fun _ => return none) (synthesize text voice)

end Switchboard.Flow

namespace Switchboard.Work

/-- Speech for a prompt. -/
def synthesizePrompt : Flow.Synthesizer Work := Flow.sparing synthesize

end Switchboard.Work
