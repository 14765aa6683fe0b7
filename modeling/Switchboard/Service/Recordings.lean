import Switchboard.Service.Speech
import Switchboard.Service.Transcripts
import Switchboard.Transcript.Diarized
/-!
# Recordings

The recording of a conference belongs to one segment and is written down for it alone.  A recording of the whole call is
attached to every segment, and what is written down is cut along the segments.
-/
namespace Switchboard.Work

/-- How often the writing down may fail in a row, and for how long it then rests. -/
def writingLimits : BreakerLimits Time.Instant := ⟨3, 120 * Time.second⟩

def endWriting (succeeded : Bool) (rest : List (Option Json)) : Work Unit :=
  Task.update fun s => { s with studio := { s.studio with
    writings := some rest
    writingBreaker := s.studio.writingBreaker.finish writingLimits s.now succeeded } }

/-- Has a recording written down: what the provider gives, none where it is not there, rests or fails. -/
def writeDown (audio : String) : Work (Option Json) :=
  Task.look fun s =>
    match s.studio.writings with
    | none => return none
    | some script => do
      let (allowed, breaker) := s.studio.writingBreaker.start writingLimits s.now
      Task.update fun s => { s with studio := { s.studio with writingBreaker := breaker } }
      if allowed then
        note (.transcribe s.settings.transcriptionModel audio)
        match script with
        | some result :: rest => do
          endWriting true rest
          return some result
        | none :: rest => do
          endWriting false rest
          return none
        | [] => do
          endWriting false []
          return none
      else return none

/-- The transcript of a recording; none where there is none to be had. -/
def transcribe (audio : String) : Work (Option (Transcript Float)) := do
  match ← writeDown audio with
  | none => return none
  | some .null => return none
  | some result => return (Transcript.ofDiarized result).toOption

/-! ## Attaching -/

/-- Fetches a recording and keeps it: its address and the audio. -/
def keepRecording (tenant name address : String) : Work (Option (String × String)) := do
  match ← fetchRecording address with
  | none => return none
  | some audio => return some (← storeMedia audio ("recordings/" ++ tenant) (name ++ ".mp3"), audio)

/-- A recording that the provider reports. -/
structure Recording where
  sid : Option String
  address : String
  duration : Option Int

/-- The changes that say where a recording comes from. -/
def Recording.changes (r : Recording) : List Store.Change := [.recordingSid r.sid, .recordingDuration r.duration]

/-- Attaches a recording to its segment: the segment and the audio. -/
def attachToSegment (sid : String) (number : Int) (r : Recording) : Work (Option Segment × Option String) := do
  match ← segment? sid number none with
  | none => return (none, none)
  | some s => do
    match ← keepRecording s.tenantId (s.rootSid ++ "_seg" ++ toString number) r.address with
    | none => return (← updateCall s.id r.changes, none)
    | some (url, audio) => do
      let updated ← updateCall s.id (r.changes ++ [.recordingUrl (some url), .transcriptionStatus (some "pending")])
      return (updated, some audio)

def attachPart (r : Recording) (url : Option String) (s : Segment) : Work Segment := do
  let kept : List Store.Change := match url with
    | some u => [.recordingUrl (some u)] ++
        (if (Flow.given s.transcription).isSome then [] else [.transcriptionStatus (some "pending")])
    | none => []
  return (← updateCall s.id (r.changes ++ kept)).getD s

/-- Attaches a recording of a whole call to each of its segments: the segments and the audio. -/
def attachToChain (sid : String) (r : Recording) : Work (List Segment × Option String) := do
  match ← chain sid none with
  | [] => return ([], none)
  | first :: rest => do
    let kept ← keepRecording first.tenantId (first.rootSid ++ "_" ++ r.sid.getD "None") r.address
    let updated ← (first :: rest).mapM (attachPart r (kept.map Prod.fst))
    return (updated, kept.map Prod.snd)

/-! ## Writing down -/

def setTranscriptStatus (status : String) (s : Segment) : Work Unit :=
  discard (updateCall s.id [.transcriptionStatus (some status)])

def transcribeSegment (s : Segment) (audio : String) : Work Unit := do
  setTranscriptStatus "processing" s
  match ← transcribe audio with
  | none => setTranscriptStatus "failed" s
  | some t => putTranscript "completed" s t.toText

def transcribeChain (sid audio : String) : Work Unit := do
  let segments ← chain sid none
  segments.forM (setTranscriptStatus "processing")
  match ← transcribe audio with
  | none => segments.forM (setTranscriptStatus "failed")
  | some t => discard (applyTranscript sid t.toText "completed" none)

/-- Stores what the telephone provider wrote down of a message, on the newest segment. -/
def storeTranscription (sid : String) (text : Option String) (status : String) : Work (Option Segment) := do
  match ← latest? sid none with
  | none => return none
  | some s =>
    updateCall s.id [.transcription (Flow.given text),
      .transcriptionStatus (some (if status = "completed" then "completed" else "failed"))]

end Switchboard.Work
