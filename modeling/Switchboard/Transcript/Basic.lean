import Switchboard.Json.Basic
/-!
# Transcripts

A transcript is a list of utterances with their times in seconds.  The recording of a call covers all its segments, so its
transcript is cut by time: a segment gets the utterances that overlap its window, clipped to it and counted from its start.
Times are of any ordered type with differences: floating numbers when the service runs, exact ones in its theory.
-/
namespace Switchboard

/-- What somebody said, from when to when.  Texts and names are kept as they came. -/
structure Utterance (τ : Type) where
  start : τ
  stop : τ
  text : Json
  speaker : Json

structure Transcript (τ : Type) where
  text : Json
  duration : τ
  utterances : List (Utterance τ)

/-- A stretch of time. -/
structure Window (τ : Type) where
  start : τ
  stop : τ
  deriving DecidableEq, Repr

variable {τ : Type} [Sub τ] [LT τ] [DecidableLT τ] [OfNat τ 0]

/-- The greater of two times; the first where neither is. -/
def later (a b : τ) : τ := if a < b then b else a

/-- The smaller of two times; the first where neither is. -/
def earlier (a b : τ) : τ := if b < a then b else a

namespace Utterance

def overlaps (u : Utterance τ) (w : Window τ) : Bool := decide (u.start < w.stop) && decide (w.start < u.stop)

/-- The part of an utterance inside a window, counted from the window's start. -/
def clip (w : Window τ) (u : Utterance τ) : Utterance τ :=
  { u with start := later u.start w.start - w.start, stop := earlier u.stop w.stop - w.start }

end Utterance

/-- Texts joined by blanks; none where one of them is no text. -/
def joinTexts : List Json → Option String
  | [] => some ""
  | [.str s] => some s
  | .str s :: rest => (joinTexts rest).map fun more => s ++ " " ++ more
  | _ => none

namespace Transcript

def clipped (w : Window τ) (us : List (Utterance τ)) : List (Utterance τ) :=
  (us.filter (fun u => u.overlaps w)).map (Utterance.clip w)

/-- The part of a transcript inside a window; none where the words of an utterance in it are no text. -/
def clip (t : Transcript τ) (w : Window τ) : Option (Transcript τ) :=
  let us := clipped w t.utterances
  (joinTexts (us.map Utterance.text)).map fun text =>
    { text := .str text, duration := later 0 (w.stop - w.start), utterances := us }

def split (t : Transcript τ) (ws : List (Window τ)) : Option (List (Transcript τ)) := ws.mapM t.clip

end Transcript

end Switchboard
