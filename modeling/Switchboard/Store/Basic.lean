import Switchboard.Call.Segment
import Switchboard.Flow.Step
/-!
# The store

What the service keeps: the segments of calls, the flows of tenants and the phone lines that run them, the directory of
users and buyers, and prompts that were read aloud.  Rows stand in the order in which they were inserted.  Rows get ids by
counting; ids compare without regard to the case of letters.
-/
namespace Switchboard

open Time (Moment Instant)

/-- A segment as it is stored. -/
structure CallRow where
  segment : Segment
  /-- The tags and the attempt record where they were written by another hand: they are read again each time. -/
  documents : Option (Json × Json)

/-- A call flow. -/
structure FlowRow where
  id : String
  tenantId : String
  name : String
  description : Option String
  isActive : Bool
  /-- Whether calls that run the flow are recorded. -/
  records : Bool
  /-- The steps as a document, or why what is stored is no document. -/
  steps : Except Json.ParseError Json
  createdAt : Moment
  updatedAt : Moment

/-- A phone line of a tenant and the flow that it runs. -/
structure LineRow where
  id : String
  tenantId : String
  phoneNumber : String
  friendlyName : Option String
  isActive : Bool
  isPrimary : Bool
  flowId : Option String

structure UserRow where
  id : String
  email : String
  firstName : Option String
  lastName : Option String

/-- The membership of a user in a tenant. -/
structure MemberRow where
  id : String
  tenantId : String
  userId : String
  isActive : Bool

structure BuyerRow where
  id : String
  tenantId : String
  main : Option String
  secondary : Option String
  mobile : Option String

/-- A prompt that was read aloud. -/
structure SpeechRow where
  digest : String
  voice : String
  text : String
  address : String
  createdAt : Moment

structure Store where
  calls : List CallRow
  flows : List FlowRow
  lines : List LineRow
  users : List UserRow
  members : List MemberRow
  buyers : List BuyerRow
  speeches : List SpeechRow
  /-- How many rows got their id by counting. -/
  counted : Nat

/-- Why the database refuses a statement. -/
inductive StoreFault where
  /-- A number does not fit its column. -/
  | range
  /-- A value that has to be there is not. -/
  | missing
  /-- Another row has the same key. -/
  | duplicate
  /-- A value is of a kind that its column does not take. -/
  | kind
  /-- A row refers to another that is not there. -/
  | orphan
  deriving DecidableEq, Repr

namespace Store

def empty : Store := ⟨[], [], [], [], [], [], [], 0⟩

/-- The id of the row that is inserted after `n` others. -/
def idAfter (n : Nat) : String := "00000000-0000-4000-8000-" ++ Time.padded 12 (n + 1)

/-- The next id, and the store that has given it. -/
def nextId (db : Store) : String × Store := (idAfter db.counted, { db with counted := db.counted + 1 })

def sameId (a b : String) : Bool := a.toList.map Char.toLower = b.toList.map Char.toLower

def fits (n : Int) : Bool := -2147483648 ≤ n && n ≤ 2147483647

def fitsLong (n : Int) : Bool := -9223372036854775808 ≤ n && n ≤ 9223372036854775807

end Store

end Switchboard
