import Switchboard.Text.Blank
import Switchboard.Text.Digit
/-!
# The digits of a text

White space holds no digits, so a text has the same digits as without the white space around it.
-/
namespace Switchboard.Text

theorem isDigit_eq_false_of_isBlank {c : Char} (h : isBlank c = true) : isDigit c = false := by
  -- The runs of digits lie between the places where white space is.
  have hplaces : ∀ z ∈ digitZeros,
      z = 0x30 ∨ 0x660 ≤ z ∧ z + 10 ≤ 0x1680 ∨ 0x1681 ≤ z ∧ z + 10 ≤ 0x2000 ∨ 0x3001 ≤ z := by decide
  simp only [isBlank, Bool.or_eq_true, Bool.and_eq_true, decide_eq_true_eq] at h
  rw [isDigit, List.any_eq_false]
  intro z hz
  have := hplaces z hz
  simp only [Bool.and_eq_true, decide_eq_true_eq]
  omega

/-- A digit of any script is one that has a value. -/
theorem isDigit_iff {c : Char} : isDigit c = true ↔ ∃ n, digitValue? c = some n := by
  unfold isDigit digitValue?
  rw [← Option.isSome_iff_exists, Option.isSome_map, List.find?_isSome, List.any_eq_true]

theorem isDigit_of_mem_digits {s : String} {c : Char} (h : c ∈ digits s) : isDigit c = true := (List.mem_filter.mp h).2

theorem digits_append (s t : String) : digits (s ++ t) = digits s ++ digits t := by
  rw [digits, String.toList_append, List.filter_append]
  rfl

theorem filter_trimBoth {p q : Char → Bool} (h : ∀ c, p c = true → q c = false) (cs : List Char) :
    (trimBoth p cs).filter q = cs.filter q := by
  have hdrop (l : List Char) : (l.dropWhile p).filter q = l.filter q := by
    induction l with
    | nil => rfl
    | cons c l ih =>
      by_cases hc : p c = true
      · rw [List.dropWhile_cons_of_pos hc, List.filter_cons_of_neg (by simp [h c hc]), ih]
      · rw [List.dropWhile_cons_of_neg hc]
  rw [trimBoth, List.filter_reverse, hdrop, List.filter_reverse, List.reverse_reverse, hdrop]

theorem mem_trimBoth {p : Char → Bool} {c : Char} (hc : p c = false) (cs : List Char) : c ∈ trimBoth p cs ↔ c ∈ cs := by
  have hother : ∀ d, p d = true → (d == c) = false := by
    rintro d hd
    exact beq_eq_false_iff_ne.mpr fun he => by rw [he, hc] at hd; cases hd
  have hmem (l : List Char) : c ∈ l ↔ c ∈ l.filter (· == c) := by simp
  rw [hmem, filter_trimBoth hother, ← hmem]

theorem digits_trim (s : String) : digits (trim s) = digits s := by
  rw [digits, trim, String.toList_ofList, filter_trimBoth fun c => isDigit_eq_false_of_isBlank]
  rfl

end Switchboard.Text
