import Switchboard.Flow.Step
import Switchboard.Text.Numeral
import Switchboard.Text.Split
/-!
# Branch paths

A nested list is addressed from the root by pairs of a step index and a selector, joined by dots: `2.o1` is the list of
the second option of step 2, `4.b0.1.f` the fallback of step 1 of the first branch of step 4.
-/
namespace Switchboard.Flow

/-- The address of a nested list of the step at `index` of the list at `parent`. -/
def branchPath (parent : Option String) (index : Int) (selector : String) : String :=
  let front := match parent with
    | some p => if p = "" then "" else p ++ "."
    | none => ""
  front ++ toString index ++ "." ++ selector

/-- Why a branch path does not lead to a list. -/
inductive BranchFault where
  | malformed (path : String)
  | mismatch (path : String)
  deriving DecidableEq, Repr

def BranchFault.message : BranchFault → String
  | .malformed p => "Malformed branch path: " ++ p
  | .mismatch p => "Branch path " ++ p ++ " does not match flow"

/-- The step at an index; a negative index counts from the end. -/
def stepAt? (steps : List Step) (i : Int) : Option Step :=
  if 0 ≤ i then steps[i.toNat]?
  else if -i ≤ steps.length then steps[(steps.length + i).toNat]?
  else none

def childOf? (s : Step) (selector : String) : Option (List Step) :=
  (s.children.find? (fun c => c.selector.text = selector)).map Child.steps

def descend : List Step → List String → Option (List Step)
  | steps, [] => some steps
  | _, [_] => none
  | steps, index :: selector :: rest => do
    let i ← Text.int? index
    let s ← stepAt? steps i
    let nested ← childOf? s selector
    descend nested rest

/-- The list that a path leads to; no path leads to the root. -/
def resolveBranch (steps : Steps) (path : Option String) : Except BranchFault Steps :=
  match given path with
  | none => .ok steps
  | some p =>
    let parts := Text.parts '.' p
    if parts.length % 2 = 1 then .error (.malformed p)
    else match descend steps parts with
      | some nested => .ok nested
      | none => .error (.mismatch p)

end Switchboard.Flow
