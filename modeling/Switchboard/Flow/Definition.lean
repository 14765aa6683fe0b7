import Switchboard.Flow.Step
/-!
# Well-formed flows

A flow is fit to be saved when every step has a known type, nothing follows a step that ends the call in its list, and no
two steps share an id.
-/
namespace Switchboard.Flow

/-- Why a flow is not fit to be saved. -/
inductive Defect where
  | unknownType (type : String) (place : String)
  | misplacedTerminal (type : String) (place : String) (after : Nat)
  | duplicateId (id : String) (place first : String)
  deriving DecidableEq, Repr

def Defect.message : Defect → String
  | .unknownType type place => "Unknown step type \"" ++ type ++ "\" at " ++ place
  | .misplacedTerminal type place after =>
    "Terminal step \"" ++ type ++ "\" at " ++ place ++ " must be the last step. Found " ++ toString after ++
      " step(s) after it."
  | .duplicateId id place first =>
    "Duplicate step id \"" ++ id ++ "\" at " ++ place ++ " (first used at " ++ first ++ ")"

/-- The first step of the walk whose type is not known. -/
def unknownType? (visits : List Visit) : Option Defect :=
  (visits.find? (fun v => !v.step.isKnown)).map fun v => .unknownType v.step.typeName v.place

mutual

/-- The first step, depth first, that ends the call and has steps after it. -/
def terminalFrom? (path : String) (index : Nat) : List Step → Option Defect
  | [] => none
  | ⟨id, label, body⟩ :: rest =>
    if (Step.mk id label body).isTerminal && !rest.isEmpty then
      some (.misplacedTerminal body.typeName (path ++ "[" ++ toString index ++ "]") rest.length)
    else
      match terminalBody? path index body with
      | some d => some d
      | none => terminalFrom? path (index + 1) rest

def terminalBody? (path : String) (index : Nat) : Body → Option Defect
  | .menu _ options invalid =>
    match terminalOptions? path index options with
    | some d => some d
    | none => terminalFrom? (childPath path index "invalidInput") 0 invalid
  | .schedule _ branches fallback =>
    match terminalBranches? path index branches with
    | some d => some d
    | none => terminalFrom? (childPath path index "fallback") 0 fallback
  | _ => none

def terminalOptions? (path : String) (index : Nat) : List MenuOption → Option Defect
  | [] => none
  | ⟨digit, _, steps⟩ :: rest =>
    match terminalFrom? (childPath path index ("option[" ++ digit ++ "]")) 0 steps with
    | some d => some d
    | none => terminalOptions? path index rest

def terminalBranches? (path : String) (index : Nat) : List Branch → Option Defect
  | [] => none
  | ⟨_, name, _, steps⟩ :: rest =>
    match terminalFrom? (childPath path index ("branch[" ++ name ++ "]")) 0 steps with
    | some d => some d
    | none => terminalBranches? path index rest

end

/-- The first step whose id a step before it has, given the ids seen with their places. -/
def duplicateFrom? (seen : List (String × String)) : List Visit → Option Defect
  | [] => none
  | v :: rest =>
    match seen.find? (fun s => s.1 = v.step.id) with
    | some s => some (.duplicateId v.step.id v.place s.2)
    | none => duplicateFrom? (seen ++ [(v.step.id, v.place)]) rest

/-- The defect for which a flow is refused: an unknown type before a misplaced end before a repeated id. -/
def defect? (steps : Steps) : Option Defect :=
  match unknownType? (walk steps) with
  | some d => some d
  | none =>
    match terminalFrom? "root" 0 steps with
    | some d => some d
    | none => duplicateFrom? [] (walk steps)

/-- Accepts a flow that is fit to be saved. -/
def validate (steps : Steps) : Except Defect Unit :=
  match defect? steps with
  | some d => .error d
  | none => .ok ()

end Switchboard.Flow
