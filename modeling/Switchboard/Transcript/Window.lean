import Switchboard.Transcript.Basic
import Switchboard.Call.Segment
/-!
# The windows of a chain

Each segment covers the stretch of its call from its start to its end.  Stretches are counted from the start of the chain,
exactly in microseconds; transcripts use them in seconds.
-/
namespace Switchboard

open Time (Moment Instant)

/-- The window of a segment in a chain that started at a given point.  An open segment runs until now. -/
def Segment.window (chainStart now : Instant) (s : Segment) : Window Int where
  start := max 0 ((s.startedAt.map Moment.instant).getD chainStart - chainStart)
  stop := (s.endedAt.map Moment.instant).getD now - chainStart

def chainWindows (now : Instant) (chain : List Segment) : List (Window Int) :=
  match chain with
  | [] => []
  | first :: _ => chain.map (Segment.window ((first.startedAt.map Moment.instant).getD now) now)

def secondsOfMicros (n : Int) : Float := Float.ofInt n / 1000000.0

def Window.inSeconds (w : Window Int) : Window Float := ⟨secondsOfMicros w.start, secondsOfMicros w.stop⟩

end Switchboard
