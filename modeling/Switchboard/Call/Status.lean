/-!
# Statuses
-/
namespace Switchboard

/-- The status of a segment or a leg. -/
inductive Status where
  | ringing
  | inProgress
  | completed
  | busy
  | noAnswer
  | failed
  | canceled
  /-- The call went on in the next segment. -/
  | transferred
  | other (text : String)
  deriving DecidableEq, Repr

namespace Status

def known : List (String × Status) :=
  [("ringing", ringing), ("in-progress", inProgress), ("completed", completed), ("busy", busy), ("no-answer", noAnswer),
   ("failed", failed), ("canceled", canceled), ("transferred", transferred)]

def text : Status → String
  | ringing => "ringing"
  | inProgress => "in-progress"
  | completed => "completed"
  | busy => "busy"
  | noAnswer => "no-answer"
  | failed => "failed"
  | canceled => "canceled"
  | transferred => "transferred"
  | other s => s

def ofText (s : String) : Status := ((known.find? (fun p => p.1 = s)).map Prod.snd).getD (other s)

def isFinal : Status → Bool
  | completed | busy | noAnswer | failed | canceled => true
  | _ => false

/-- Whether a segment takes no part in its call any more. -/
def isClosed : Status → Bool
  | transferred => true
  | s => s.isFinal

def isAnswered : Status → Bool
  | inProgress | completed => true
  | _ => false

end Status

end Switchboard
