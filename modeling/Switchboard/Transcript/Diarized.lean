import Switchboard.Transcript.Stored
import Switchboard.Text.Blank
/-!
# Diarized results

The provider labels who speaks.  Labels are numbered in the order in which they first appear: `Speaker 1`, `Speaker 2`, …
-/
namespace Switchboard

/-- Why a provider's result is no transcript. -/
inductive DiarizedFault where
  /-- A time is no number. -/
  | time (fault : TranscriptFault)
  /-- A label is a list or an object. -/
  | label
  /-- The words of an utterance are no text. -/
  | words
  deriving DecidableEq, Repr

/-- The number that a value equals, where it is one. -/
def labelNumber? : Json → Option Float
  | .bool b => some (if b then 1.0 else 0.0)
  | .int n => some (Decimal.toFloat (n < 0) n.natAbs 0)
  | .float x => some x
  | _ => none

def sameLabel : Json → Json → Bool
  | .str a, .str b => a = b
  | a, b =>
    match labelNumber? a, labelNumber? b with
    | some x, some y => x == y
    | _, _ => false

/-- The rank of a label among those seen, from one, and the labels seen with it. -/
def rankLabel (label : Json) : List Json → Nat × List Json
  | [] => (1, [label])
  | l :: rest => if sameLabel l label then (1, l :: rest) else ((rankLabel label rest).1 + 1, l :: (rankLabel label rest).2)

def speakerName (rank : Nat) : String := "Speaker " ++ toString rank

def labelOf (v : Json) : Json := orElseIfNothing (v.getD "speaker") (.str "unknown")

/-- A time that may be left out. -/
def optionalTime (v : Json) : Except DiarizedFault Float :=
  match secondsOf (orElseIfNothing v (.int 0)) with
  | .ok x => .ok x
  | .error e => .error (.time e)

/-- The words of a piece without the white space around them. -/
def wordsOf (v : Json) : Except DiarizedFault String :=
  match orElseIfNothing v (.str "") with
  | .str s => .ok (Text.trim s)
  | _ => .error .words

def isLabel : Json → Bool
  | .arr _ => false
  | .obj _ => false
  | _ => true

/-- The utterances of a result's pieces, given the labels seen before. -/
def utterancesFrom (seen : List Json) : List Json → Except DiarizedFault (List (Utterance Float))
  | [] => .ok []
  | v :: rest =>
    let label := labelOf v
    if !isLabel label then .error .label
    else do
      let (rank, seen) := rankLabel label seen
      let start ← optionalTime (v.getD "start")
      let stop ← optionalTime (v.getD "end")
      let words ← wordsOf (v.getD "text")
      let more ← utterancesFrom seen rest
      return ⟨start, stop, .str words, .str (speakerName rank)⟩ :: more

/-- The transcript of a provider's result.  Without pieces the whole text is one utterance; without a duration the end of
the last utterance is the duration. -/
def Transcript.ofDiarized (result : Json) : Except DiarizedFault (Transcript Float) := do
  let text := orElseIfNothing (result.getD "text") (.str "")
  let duration ← optionalTime (result.getD "duration")
  let pieces := result.getD "segments"
  if !pieces.truthy then
    return ⟨text, duration, [⟨0.0, duration, text, .str (speakerName 1)⟩]⟩
  else
    let items ← match itemsOf pieces with
      | .ok xs => .ok xs
      | .error e => .error (.time e)
    let us ← utterancesFrom [] items
    let last := (us.getLast?.map Utterance.stop).getD 0.0
    return ⟨text, if duration == 0.0 then last else duration, us⟩

end Switchboard
