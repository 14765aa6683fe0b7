import Switchboard.Store.Basic
/-!
# Stored speech

A prompt that was read aloud is found again by the digest of its text and its voice.
-/
namespace Switchboard.Store

open Time (Moment)

def isSpeech (digest voice : String) (r : SpeechRow) : Bool := r.digest = digest && r.voice = voice

/-- Where the speech for a text is. -/
def speechOf (digest voice : String) (db : Store) : Option String :=
  (db.speeches.find? (isSpeech digest voice)).map SpeechRow.address

/-- Keeps where the speech for a text is; one address for each text and voice. -/
def putSpeech (r : SpeechRow) (db : Store) : Store :=
  if db.speeches.any (isSpeech r.digest r.voice) then
    { db with speeches := db.speeches.map fun q =>
        if isSpeech r.digest r.voice q then { q with address := r.address } else q }
  else { db with speeches := db.speeches ++ [r] }

end Switchboard.Store
