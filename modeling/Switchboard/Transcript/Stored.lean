import Switchboard.Transcript.Basic
import Switchboard.Json.Reader
import Switchboard.Json.Printer
import Switchboard.Text.Numeral
/-!
# Stored transcripts

Transcripts are stored as the text of a document.  Times may be stored as numbers, truth values or texts that spell a
number.
-/
namespace Switchboard

/-- Why a value is no transcript. -/
inductive TranscriptFault where
  /-- The text is no document. -/
  | unreadable
  /-- An integer in it is too long. -/
  | digits
  /-- The document is no object. -/
  | notObject
  /-- An utterance lacks its start or its end. -/
  | missing
  /-- A value is of a kind that cannot stand there. -/
  | kind
  /-- A text spells no number. -/
  | number
  /-- An integer is too large for a time. -/
  | overflow
  /-- The words of an utterance are no text. -/
  | words
  deriving DecidableEq, Repr

def TranscriptFault.message : TranscriptFault → String
  | .notObject => "Transcript JSON must be an object"
  | _ => ""

def secondsOf (v : Json) : Except TranscriptFault Float :=
  match v with
  | .float x => .ok x
  | .bool b => .ok (if b then 1.0 else 0.0)
  | .int n =>
    let x := Decimal.toFloat (n < 0) n.natAbs 0
    if x.isInf then .error .overflow else .ok x
  | .str s =>
    match Text.float? s with
    | some x => .ok x
    | none => .error .number
  | _ => .error .kind

/-- The value itself, or another where it stands for nothing. -/
def orElseIfNothing (v : Json) (d : Json) : Json := if v.truthy then v else d

/-- The items that a value has: those of a list, the names of an object, the characters of a text. -/
def itemsOf (v : Json) : Except TranscriptFault (List Json) :=
  match v with
  | .arr xs => .ok xs
  | .obj fs => .ok (fs.map fun f => .str f.1)
  | .str s => .ok (s.toList.map fun c => .str c.toString)
  | _ => .error .kind

/-- A field that has to be there, in a value that has fields. -/
def neededTime (v : Json) (key : String) : Except TranscriptFault Float :=
  match v with
  | .obj fs =>
    match Json.lookup key fs with
    | some w => secondsOf w
    | none => .error .missing
  | _ => .error .kind

def Utterance.read (v : Json) : Except TranscriptFault (Utterance Float) := do
  let start ← neededTime v "start"
  let stop ← neededTime v "end"
  return ⟨start, stop, (v.get? "text").getD (.str ""), (v.get? "speaker").getD (.str "Speaker 1")⟩

def Transcript.read (v : Json) : Except TranscriptFault (Transcript Float) :=
  match v with
  | .obj _ => do
    let duration ← secondsOf (orElseIfNothing (v.getD "duration") (.int 0))
    let items ← itemsOf (orElseIfNothing (v.getD "segments") (.arr []))
    let utterances ← items.mapM Utterance.read
    return ⟨orElseIfNothing (v.getD "text") (.str ""), duration, utterances⟩
  | _ => .error .notObject

def Transcript.ofText (raw : String) : Except TranscriptFault (Transcript Float) :=
  match Json.parse raw with
  | .ok v => Transcript.read v
  | .error e => .error (if e.fault = .digits then .digits else .unreadable)

def Utterance.toJson (u : Utterance Float) : Json :=
  .obj [("start", .float u.start), ("end", .float u.stop), ("text", u.text), ("speaker", u.speaker)]

def Transcript.toJson (t : Transcript Float) : Json :=
  .obj [("text", t.text), ("duration", .float t.duration), ("segments", .arr (t.utterances.map Utterance.toJson))]

def Transcript.toText (t : Transcript Float) : String := t.toJson.toText

end Switchboard
