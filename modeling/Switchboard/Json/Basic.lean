/-!
# JSON values

The value type of every message, stored document and settings blob.  An object keeps its fields in the order they were
written, and integers stay apart from floating numbers, since both differences can be seen in what is printed.
-/
namespace Switchboard

/-- A JSON value. -/
inductive Json where
  | null
  | bool (b : Bool)
  | int (n : Int)
  | float (x : Float)
  | str (s : String)
  | arr (items : List Json)
  | obj (fields : List (String × Json))
  deriving Inhabited, Repr

namespace Json

/-- The fields of an object value; any other value has none. -/
def fields : Json → List (String × Json)
  | .obj fs => fs
  | _ => []

/-- The value of the first field called `key` in a field list. -/
def lookup (key : String) : List (String × Json) → Option Json
  | [] => none
  | (k, v) :: rest => if k = key then some v else lookup key rest

/-- The field `key` of an object. -/
def get? (key : String) : Json → Option Json
  | .obj fs => lookup key fs
  | _ => none

/-- The field `key`, or `null` where it is absent. -/
def getD (key : String) (v : Json) : Json := (v.get? key).getD .null

/-- Writes a field: in place where the key is there, otherwise at the end. -/
def setField (key : String) (v : Json) : List (String × Json) → List (String × Json)
  | [] => [(key, v)]
  | (k, w) :: rest => if k = key then (k, v) :: rest else (k, w) :: setField key v rest

def str? : Json → Option String
  | .str s => some s
  | _ => none

def int? : Json → Option Int
  | .int n => some n
  | _ => none

def arr? : Json → Option (List Json)
  | .arr xs => some xs
  | _ => none

/-- The fields of an object value, where it is one. -/
def obj? : Json → Option (List (String × Json))
  | .obj fs => some fs
  | _ => none

/-- Whether a value counts as absent: null. -/
def isNull : Json → Bool
  | .null => true
  | _ => false

/-- Whether a value is something rather than nothing: not null, false, zero or empty. -/
def truthy : Json → Bool
  | .null => false
  | .bool b => b
  | .int n => n != 0
  | .float x => !(x == 0.0)
  | .str s => s != ""
  | .arr xs => !xs.isEmpty
  | .obj fs => !fs.isEmpty

/-- The text, or null for none. -/
def ofStr? : Option String → Json
  | none => .null
  | some s => .str s

/-- The integer, or null for none. -/
def ofInt? : Option Int → Json
  | none => .null
  | some n => .int n

def ofNat (n : Nat) : Json := .int n

@[simp] theorem lookup_nil (key : String) : lookup key [] = none := rfl

theorem lookup_cons (key k : String) (v : Json) (rest : List (String × Json)) :
    lookup key ((k, v) :: rest) = if k = key then some v else lookup key rest := rfl

theorem lookup_setField (key : String) (v : Json) (fs : List (String × Json)) :
    lookup key (setField key v fs) = some v := by
  induction fs with
  | nil => simp [setField, lookup]
  | cons p rest ih =>
    obtain ⟨k, w⟩ := p
    by_cases h : k = key <;> simp [setField, lookup, h, ih]

theorem lookup_setField_ne {key other : String} (h : key ≠ other) (v : Json) (fs : List (String × Json)) :
    lookup other (setField key v fs) = lookup other fs := by
  induction fs with
  | nil => simp [setField, lookup, h]
  | cons p rest ih =>
    obtain ⟨k, w⟩ := p
    by_cases hk : k = key
    · subst hk; simp [setField, lookup, h]
    · simp [setField, lookup, hk, ih]

end Json

end Switchboard
