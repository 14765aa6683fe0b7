import Switchboard.Service.Calls
import Switchboard.Transcript.Stored
import Switchboard.Transcript.Window
/-!
# Transcripts of calls

The transcript of a whole call is kept on its first segment and cut along the segments, so that it can be cut again later.
A transcript without times is stored on every segment as it is.
-/
namespace Switchboard.Work

open Time (Instant)

/-- The timed transcript that a text holds: none where it holds none. -/
def timed (raw : String) : Work (Option (Transcript Float)) :=
  match Transcript.ofText raw with
  | .ok t => return if t.utterances.isEmpty then none else some t
  | .error .overflow => Task.fail .overflow
  | .error _ => return none

def putTranscript (status : String) (s : Segment) (text : String) : Work Unit :=
  discard (updateCall s.id [.transcription (some text), .transcriptionStatus (some status)])

/-- Stores each part of a transcript on its segment. -/
def putParts (status : String) : List (Segment × Transcript Float) → Work Unit
  | [] => return ()
  | (s, part) :: rest => do
    putTranscript status s part.toText
    putParts status rest

/-- Stores the transcript of a call on its segments: how many there are. -/
def applyTranscript (sid raw status : String) (asOf : Option Instant) : Work Nat := do
  match ← chain sid none with
  | [] => return 0
  | first :: rest => do
    discard (updateCall first.id [.chainTranscription (some raw)])
    let segments := first :: rest
    if rest.isEmpty then putTranscript status first raw
    else
      match ← timed raw with
      | none => segments.forM fun s => putTranscript status s raw
      | some t => do
        let now ← now
        match t.split ((chainWindows (asOf.getD now) segments).map Window.inSeconds) with
        | none => Task.fail .words
        | some parts => putParts status (segments.zip parts)
    return segments.length

/-- The text that a call can be cut again from: that of the whole call, or else of its first completed segment with one. -/
def transcriptSource : List Segment → Option String
  | [] => none
  | first :: rest =>
    match Flow.given first.chainTranscription with
    | some raw => some raw
    | none =>
      ((first :: rest).find? fun s => s.status = .completed && (Flow.given s.transcription).isSome).bind
        Segment.transcription

/-- Cuts the stored transcript of a call again: how many segments it has, none where there is no transcript. -/
def resegment (sid : String) : Work Nat := do
  match transcriptSource (← chain sid none) with
  | none => return 0
  | some raw => applyTranscript sid raw "completed" none

/-- Cuts the transcripts of several calls again: how many were cut and how many failed. -/
def resegmentEach : List String → Work (Nat × Nat)
  | [] => return (0, 0)
  | sid :: rest => do
    let cut ← if (← chain sid none).length < 2 then pure (0, 0) else do
      match ← Task.attempt (resegment sid) with
      | .ok n => pure (if n = 0 then 0 else 1, 0)
      | .error _ => pure (0, 1)
    let more ← resegmentEach rest
    return (cut.1 + more.1, cut.2 + more.2)

/-- Cuts the transcripts of all calls of a tenant again that have more than one segment. -/
def resegmentTenant (tenant : String) : Work (Nat × Nat) := do resegmentEach (← query (Store.roots tenant))

end Switchboard.Work
