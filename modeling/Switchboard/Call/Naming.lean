import Switchboard.Text.Split
/-!
# Names of segments

A call and the segments that transfers add to it share one root call id.  Conferences and transfer segments are named
from it and the segment's number.
-/
namespace Switchboard.Naming

def conference (root : String) (segment : Int) : String := "call_" ++ root ++ "_seg_" ++ toString segment

def transferMark : String := "_transfer"

def transfer (root : String) (segment : Int) : String := root ++ transferMark ++ "_" ++ toString segment

/-- The root call id: what stands before a transfer mark. -/
def root (sid : String) : String := String.ofList (Text.before transferMark.toList sid.toList)

end Switchboard.Naming
