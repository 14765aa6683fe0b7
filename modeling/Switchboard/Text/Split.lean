/-!
# Splitting texts
-/
namespace Switchboard.Text

/-- Splits characters at every `sep`. -/
def splitOn (sep : Char) : List Char → List (List Char)
  | [] => [[]]
  | c :: rest =>
    if c = sep then [] :: splitOn sep rest
    else match splitOn sep rest with
      | piece :: more => (c :: piece) :: more
      | [] => [[c]]

/-- The parts of a text between the characters `sep`. -/
def parts (sep : Char) (s : String) : List String := (splitOn sep s.toList).map String.ofList

/-- Splits characters at the first `sep`. -/
def splitFirst (sep : Char) (cs : List Char) : List Char × Option (List Char) :=
  match cs.dropWhile (· != sep) with
  | [] => (cs, none)
  | _ :: rest => (cs.takeWhile (· != sep), some rest)

/-- What follows `mark` at the front of a list. -/
def stripFront? {α : Type} [DecidableEq α] : List α → List α → Option (List α)
  | [], xs => some xs
  | m :: ms, x :: xs => if m = x then stripFront? ms xs else none
  | _ :: _, [] => none

/-- What comes before the first place where `mark` stands. -/
def before {α : Type} [DecidableEq α] (mark : List α) : List α → List α
  | [] => []
  | x :: xs => if (stripFront? mark (x :: xs)).isSome then [] else x :: before mark xs

/-- Whether `mark` stands somewhere in a list. -/
def holds {α : Type} [DecidableEq α] (mark : List α) : List α → Bool
  | [] => mark.isEmpty
  | x :: xs => (stripFront? mark (x :: xs)).isSome || holds mark xs

end Switchboard.Text
