import Switchboard.Json.Basic
import Switchboard.Decimal
/-!
# What is wrong with an input

A refused document lists every defect with the place where it is, the offending value and the limit it misses.
-/
namespace Switchboard.Input

/-- One step from a document to a part of it. -/
inductive Place where
  | field (name : String)
  | item (index : Nat)
  deriving DecidableEq, Repr

/-- What can be wrong with a value. -/
inductive Defect where
  | missing
  | textExpected
  | listExpected
  | tooShort (least : Nat)
  | tooLong (most : Nat)
  | pattern (shape : String)
  | intExpected
  | intUnreadable
  | intTooLarge
  | intFraction
  | notFinite
  | boolExpected
  | boolUnreadable
  | below (least : Int)
  | above (most : Int)
  | notAmong (values : List String)
  | tooFew (least actual : Nat)
  | objectExpected (model : String)
  | attributesExpected
  | weekday
  | unreadable (reason : String)
  deriving DecidableEq, Repr

namespace Defect

def name : Defect → String
  | .missing => "missing"
  | .textExpected => "string_type"
  | .listExpected => "list_type"
  | .tooShort _ => "string_too_short"
  | .tooLong _ => "string_too_long"
  | .pattern _ => "string_pattern_mismatch"
  | .intExpected => "int_type"
  | .intUnreadable => "int_parsing"
  | .intTooLarge => "int_parsing_size"
  | .intFraction => "int_from_float"
  | .notFinite => "finite_number"
  | .boolExpected => "bool_type"
  | .boolUnreadable => "bool_parsing"
  | .below _ => "greater_than_equal"
  | .above _ => "less_than_equal"
  | .notAmong _ => "literal_error"
  | .tooFew _ _ => "too_short"
  | .objectExpected _ => "model_type"
  | .attributesExpected => "model_attributes_type"
  | .weekday => "value_error"
  | .unreadable _ => "json_invalid"

def counted (n : Nat) (noun : String) : String := toString n ++ " " ++ noun ++ (if n = 1 then "" else "s")

/-- The values of a choice, quoted and joined, the last one after "or". -/
def choices : List String → String
  | [] => ""
  | [v] => "'" ++ v ++ "'"
  | [v, w] => "'" ++ v ++ "' or '" ++ w ++ "'"
  | v :: rest => "'" ++ v ++ "', " ++ choices rest

def message : Defect → String
  | .missing => "Field required"
  | .textExpected => "Input should be a valid string"
  | .listExpected => "Input should be a valid list"
  | .tooShort n => "String should have at least " ++ counted n "character"
  | .tooLong n => "String should have at most " ++ counted n "character"
  | .pattern p => "String should match pattern '" ++ p ++ "'"
  | .intExpected => "Input should be a valid integer"
  | .intUnreadable => "Input should be a valid integer, unable to parse string as an integer"
  | .intTooLarge => "Unable to parse input string as an integer, exceeded maximum size"
  | .intFraction => "Input should be a valid integer, got a number with a fractional part"
  | .notFinite => "Input should be a finite number"
  | .boolExpected => "Input should be a valid boolean"
  | .boolUnreadable => "Input should be a valid boolean, unable to interpret input"
  | .below n => "Input should be greater than or equal to " ++ toString n
  | .above n => "Input should be less than or equal to " ++ toString n
  | .notAmong vs => "Input should be " ++ choices vs
  | .tooFew n m => "List should have at least " ++ counted n "item" ++ " after validation, not " ++ toString m
  | .objectExpected model => "Input should be a valid dictionary or instance of " ++ model
  | .attributesExpected => "Input should be a valid dictionary or object to extract fields from"
  | .weekday => "Value error, days must be between 0 (Sunday) and 6 (Saturday)"
  | .unreadable _ => "JSON decode error"

def context : Defect → List (String × Json)
  | .tooShort n => [("min_length", .ofNat n)]
  | .tooLong n => [("max_length", .ofNat n)]
  | .pattern p => [("pattern", .str p)]
  | .below n => [("ge", .int n)]
  | .above n => [("le", .int n)]
  | .notAmong vs => [("expected", .str (choices vs))]
  | .tooFew n m => [("field_type", .str "List"), ("min_length", .ofNat n), ("actual_length", .ofNat m)]
  | .objectExpected model => [("class_name", .str model)]
  | .weekday => [("error", .obj [])]
  | .unreadable reason => [("error", .str reason)]
  | _ => []

end Defect

/-- A defect, where it is and the value it is about. -/
structure Issue where
  defect : Defect
  place : List Place
  value : Json

namespace Issue

def placeJson : Place → Json
  | .field name => .str name
  | .item i => .ofNat i

/-- The name, place and wording of an issue. -/
def summary (i : Issue) : List (String × Json) :=
  [("type", .str i.defect.name), ("loc", .arr (i.place.map placeJson)), ("msg", .str i.defect.message)]

def withValue (i : Issue) : Json := .obj (i.summary ++ [("input", i.value)])

def full (i : Issue) : Json :=
  let ctx := i.defect.context
  .obj (i.summary ++ [("input", i.value)] ++ (if ctx.isEmpty then [] else [("ctx", .obj ctx)]))

def under (p : Place) (i : Issue) : Issue := { i with place := p :: i.place }

end Issue

/-- The outcome of checking: a value, or every issue found. -/
inductive Checked (α : Type) where
  | ok (value : α)
  | bad (issues : List Issue)

namespace Checked

def map {α β : Type} (f : α → β) : Checked α → Checked β
  | .ok a => .ok (f a)
  | .bad is => .bad is

/-- Both outcomes together; issues of both are kept, in order. -/
def seq {α β : Type} (f : Checked (α → β)) (x : Unit → Checked α) : Checked β :=
  match f, x () with
  | .ok g, .ok a => .ok (g a)
  | .ok _, .bad is => .bad is
  | .bad is, .ok _ => .bad is
  | .bad is, .bad js => .bad (is ++ js)

instance : Applicative Checked where
  pure := .ok
  map := map
  seq := seq

def andThen {α β : Type} (x : Checked α) (f : α → Checked β) : Checked β :=
  match x with
  | .ok a => f a
  | .bad is => .bad is

def under {α : Type} (p : Place) : Checked α → Checked α
  | .ok a => .ok a
  | .bad is => .bad (is.map (Issue.under p))

def issue {α : Type} (d : Defect) (v : Json) : Checked α := .bad [⟨d, [], v⟩]

def toExcept {α : Type} : Checked α → Except (List Issue) α
  | .ok a => .ok a
  | .bad is => .error is

@[simp] theorem map_ok {α β : Type} (f : α → β) (a : α) : f <$> (Checked.ok a) = Checked.ok (f a) := rfl

@[simp] theorem seq_ok {α β : Type} (f : α → β) (a : α) : (Checked.ok f) <*> (Checked.ok a) = Checked.ok (f a) := rfl

@[simp] theorem under_ok {α : Type} (p : Place) (a : α) : (Checked.ok a).under p = Checked.ok a := rfl

end Checked

end Switchboard.Input
