import Switchboard.Flow.Definition
import Switchboard.Flow.Reader
import Switchboard.Mask
import Switchboard.Store.Calls
/-!
# Faults

Why a request is not served.  A fault that the service itself finds has a wording, and so has a text that cannot be read;
one that the database or a value of the wrong kind gives rise to has none.
-/
namespace Switchboard

/-- Why a call is not transferred. -/
inductive TransferFault where
  | callNotFound
  | notOpen (status : Status)
  | targetNotFound
  /-- The segment was closed meanwhile. -/
  | closedMeanwhile (status : Option Status)
  | noLeg
  deriving DecidableEq

/-- Why a destination cannot be dialed. -/
inductive DestinationFault where
  | notDialable (destination : String)
  | noUser (destination : String)
  deriving DecidableEq, Repr

/-- What is looked for. -/
inductive Thing where
  | call
  | flow
  | line
  deriving DecidableEq, Repr

inductive Fault where
  /-- The database does not answer. -/
  | unreachable
  /-- The database refuses a statement. -/
  | refused (fault : StoreFault)
  /-- A stored document cannot be read. -/
  | document (fault : ScratchFault)
  /-- A stored text is no document. -/
  | unreadable (refusal : Json.ParseError)
  /-- A segment changed each time it was to be written. -/
  | keepsChanging (sid : String) (number : Int)
  /-- A column is not for updates. -/
  | fixedColumn (name : String)
  /-- A segment takes no part in its call any more. -/
  | closed (status : Option Status)
  | transfer (fault : TransferFault)
  | destination (fault : DestinationFault)
  | notFound (thing : Thing)
  /-- A flow cannot be deleted while lines run it. -/
  | flowInUse (lines : Nat)
  /-- A flow lacks its name. -/
  | nameless
  /-- Steps cannot be read. -/
  | steps (fault : Flow.ReadFault)
  /-- Steps do not make a flow. -/
  | definition (defect : Flow.Defect)
  /-- The provider did not end a call. -/
  | notEnded
  /-- A text cannot be joined with what is no text. -/
  | words
  /-- A value is of a kind that cannot stand there. -/
  | kind
  /-- A number is too large for a time. -/
  | overflow

namespace Fault

/-- What is said of a segment that is closed, or not there any more. -/
def closedMessage (status : Option Status) : String :=
  "Call is no longer active (status=" ++ (match status with
    | some s => s.text
    | none => "None") ++ ")"

end Fault

def TransferFault.message : TransferFault → String
  | callNotFound => "Call not found"
  | notOpen status => "Cannot transfer a call with status " ++ status.text
  | targetNotFound => "Transfer target not found"
  | closedMeanwhile status => Fault.closedMessage status
  | noLeg => "Failed to connect to transfer target"

def DestinationFault.message : DestinationFault → String
  | notDialable d => "Not a dialable phone number: " ++ Mask.destination d
  | noUser d => "No active user for destination " ++ Mask.destination d

def Thing.message : Thing → String
  | call => "Call not found"
  | flow => "Call flow not found"
  | line => "Phone line not found"

def Fault.message? : Fault → Option String
  | keepsChanging sid number => some ("Segment " ++ sid ++ "/" ++ toString number ++ " kept changing")
  | fixedColumn name => some ("Column " ++ name ++ " cannot be updated")
  | closed status => some (closedMessage status)
  | transfer f => some f.message
  | destination f => some f.message
  | notFound thing => some thing.message
  | flowInUse lines =>
    some ("Call flow is assigned to " ++ toString lines ++ " phone line(s); unassign it first")
  | definition d => some d.message
  | notEnded => some "Could not end the call"
  | document f => f.message?
  | unreadable e => some e.message
  | _ => none

end Switchboard
