import Switchboard.Phone
import Switchboard.Service.State
import Switchboard.Store.Directory
/-!
# Looking people up

A destination of a flow leads to an active member of the tenant or to a phone number.  Calls are linked with the buyer who
has the caller's number.
-/
namespace Switchboard.Work

def member? (tenant user : String) : Work (Option Member) := query (Store.memberOfUser tenant user)

def memberByEmail? (tenant email : String) : Work (Option Member) := query (Store.memberOfEmail tenant email)

def memberById? (id : String) : Work (Option Member) := query (Store.memberOfId id)

def userTarget (raw : String) (found : Option Member) : Work DialTarget :=
  match found with
  | some m => return m.target raw
  | none => Task.fail (.destination (.noUser raw))

/-- Where a destination leads. -/
def resolve (tenant destination : String) : Work DialTarget :=
  let d := Destination.classify (some destination)
  match d.kind with
  | .phone =>
    match Phone.normalize? (some d.raw) with
    | some number => return ⟨.phone, number, d.raw, none⟩
    | none => Task.fail (.destination (.notDialable d.raw))
  | .userId => do userTarget d.raw (← member? tenant d.raw)
  | .email => do userTarget d.raw (← memberByEmail? tenant d.raw)

/-- Where a destination leads, if anywhere. -/
def resolve? (tenant destination : String) : Work (Option DialTarget) :=
  Task.recover
    (fun e => match e with
      | .destination _ => return none
      | e => Task.fail e)
    (do return some (← resolve tenant destination))

/-- Where several destinations lead; those that lead nowhere are dropped. -/
def resolveAll (tenant : String) : List String → Work (List DialTarget)
  | [] => return []
  | d :: rest => do
    let t ← resolve? tenant d
    let more ← resolveAll tenant rest
    return t.toList ++ more

/-- The buyer with a phone number.  A database that does not answer never keeps a call from being taken. -/
def buyer? (tenant : String) (phone : Option String) : Work (Option String) :=
  match Phone.normalize? phone with
  | none => return none
  | some number =>
    Task.recover (fun _ => return none) (query (Store.buyerOfPhone tenant number (Phone.lastTen (some number))))

end Switchboard.Work
