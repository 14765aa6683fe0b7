import Mathlib.Data.Nat.Digits.Defs
import Switchboard.Text.Numeral
/-!
# Numbers are read back as they were written

Steps, attempts and segments are named by numbers in addresses and in branch paths.  What is written for a number is read
as the number, as long as it has no more digits than a reader converts; and no two numbers are written alike, however many
digits they have.
-/
namespace Switchboard.Text

/-- A number with no more digits than a reader converts. -/
def Readable (n : Int) : Prop := (Nat.toDigits 10 n.natAbs).length ≤ 4300

instance (n : Int) : Decidable (Readable n) := inferInstanceAs (Decidable (_ ≤ _))

/-- **Smaller numbers have no more digits.** -/
theorem Readable.of_le {m n : Int} (h : Readable n) (hle : m.natAbs ≤ n.natAbs) : Readable m := by
  have hpos : 0 < (Nat.toDigits 10 n.natAbs).length := Nat.length_toDigits_pos
  have hn := (Nat.length_toDigits_le_iff (n := n.natAbs) (by decide) hpos).1 (Nat.le_refl _)
  exact Nat.le_trans ((Nat.length_toDigits_le_iff (by decide) hpos).2 (Nat.lt_of_le_of_lt hle hn)) h

/-! ## Digits -/

theorem range_of_isDigit {c : Char} (h : c.isDigit = true) : 48 ≤ c.toNat ∧ c.toNat < 58 := by
  rw [Char.isDigit, Bool.and_eq_true, decide_eq_true_eq, decide_eq_true_eq, ge_iff_le, UInt32.le_iff_toNat_le,
    UInt32.le_iff_toNat_le] at h
  exact ⟨h.1, Nat.lt_succ_of_le h.2⟩

theorem digitValue?_of_isDigit {c : Char} (h : c.isDigit = true) : digitValue? c = some (c.toNat - 48) := by
  unfold digitValue? digitZeros
  rw [List.find?_cons_of_pos (by simpa using range_of_isDigit h)]
  rfl

theorem digitRun?_digits : ∀ {cs : List Char} (fresh : Bool), (∀ c ∈ cs, c.isDigit = true) → cs ≠ [] ∨ fresh = false →
    digitRun? fresh cs = some (cs.map fun c => c.toNat - 48)
  | [], fresh, _, h => by
    rw [h.resolve_left (fun h => h rfl)]
    rfl
  | c :: cs, fresh, hcs, _ => by
    have hc := hcs c List.mem_cons_self
    have hmark : c ≠ '_' := by rintro rfl; exact absurd hc (by decide)
    rw [digitRun?, if_neg hmark, digitValue?_of_isDigit hc,
      digitRun?_digits false (fun d hd => hcs d (List.mem_cons_of_mem _ hd)) (.inr rfl)]
    rfl

theorem not_blank_of_isDigit {c : Char} (h : c.isDigit = true) : isNumeralBlank c = false := by
  have hrange := range_of_isDigit h
  simp only [isNumeralBlank, isBlank, Bool.and_eq_false_iff, Bool.or_eq_false_iff, decide_eq_false_iff_not]
  left
  omega

theorem trimBoth_of_all {p : Char → Bool} {cs : List Char} (h : ∀ c ∈ cs, p c = false) : trimBoth p cs = cs := by
  have hdrop (l : List Char) (hl : ∀ c ∈ l, p c = false) : l.dropWhile p = l := by
    cases l with
    | nil => rfl
    | cons c l => rw [List.dropWhile_cons_of_neg (by simp [hl c List.mem_cons_self])]
  rw [trimBoth, hdrop cs h, hdrop _ (fun c hc => h c (List.mem_reverse.1 hc)), List.reverse_reverse]

theorem toDigits_inj {m n : Nat} (h : Nat.toDigits 10 m = Nat.toDigits 10 n) : m = n := by
  rw [← Nat.ofDigitChars_ten_toDigits (n := m), h, Nat.ofDigitChars_ten_toDigits]

theorem not_mem_toDigits {c : Char} (hc : c.isDigit = false) (n : Nat) : c ∉ Nat.toDigits 10 n := fun h => by
  rw [Nat.isDigit_of_mem_toDigits (by decide) (by decide) h] at hc
  cases hc

/-- **Digits spell their number.** -/
theorem ofDigits_toDigits (n : Nat) : ofDigits ((Nat.toDigits 10 n).map fun c => c.toNat - 48) = n := by
  have hread := Nat.ofDigitChars_ten_toDigits (n := n)
  rw [Nat.ofDigitChars_eq_foldl] at hread
  rw [ofDigits, List.foldl_map]
  simp only [Nat.mul_comm 10] at hread
  exact hread

/-! ## Numerals -/

/-- A numeral of digits behind a sign, where there is one. -/
theorem int?_of_digits {s : String} (negative : Bool) {n : Nat} (hblank : ∀ c ∈ s.toList, isNumeralBlank c = false)
    (hsign : splitSign s.toList = (negative, Nat.toDigits 10 n)) (hn : (Nat.toDigits 10 n).length ≤ 4300) :
    int? s = some (if negative then -(n : Int) else n) := by
  have hdigits : ∀ c ∈ Nat.toDigits 10 n, c.isDigit = true := fun c hc =>
    Nat.isDigit_of_mem_toDigits (by decide) (by decide) hc
  have hrun := digitRun?_digits true hdigits (.inl Nat.toDigits_ne_nil)
  unfold int?
  rw [trimBoth_of_all hblank, hsign]
  simp only [hrun, Option.bind_eq_bind, Option.bind_some, List.length_map, ofDigits_toDigits]
  rw [if_neg (by omega)]
  rfl

theorem splitSign_toDigits (n : Nat) : splitSign (Nat.toDigits 10 n) = (false, Nat.toDigits 10 n) := by
  have hdigits : ∀ c ∈ Nat.toDigits 10 n, c.isDigit = true := fun c hc =>
    Nat.isDigit_of_mem_toDigits (by decide) (by decide) hc
  unfold splitSign
  split
  · rename_i h
    rw [h] at hdigits
    exact absurd (hdigits _ List.mem_cons_self) (by decide)
  · rename_i h
    rw [h] at hdigits
    exact absurd (hdigits _ List.mem_cons_self) (by decide)
  · rfl

theorem toList_toString_nat (n : Nat) : (toString n).toList = Nat.toDigits 10 n := by
  rw [Nat.toString_eq_ofList_toDigits, String.toList_ofList]

theorem toList_toString_negSucc (n : Nat) : (toString (Int.negSucc n)).toList = '-' :: Nat.toDigits 10 (n + 1) :=
  (String.toList_append ..).trans (congrArg ('-' :: ·) (toList_toString_nat (n + 1)))

/-- What is written for a number holds its digits and a sign. -/
theorem not_mem_toString {c : Char} (hsign : c ≠ '-') (hc : c.isDigit = false) (n : Int) : c ∉ (toString n).toList := by
  cases n with
  | ofNat n => exact toList_toString_nat n ▸ not_mem_toDigits hc n
  | negSucc n =>
    rw [toList_toString_negSucc, List.mem_cons, not_or]
    exact ⟨hsign, not_mem_toDigits hc (n + 1)⟩

/-- **No two numbers are written alike.** -/
theorem toString_injective : Function.Injective (toString : Int → String) := by
  have hsign (m n : Nat) : Nat.toDigits 10 m ≠ '-' :: Nat.toDigits 10 n := fun h =>
    not_mem_toDigits (by decide) m (h ▸ List.mem_cons_self : '-' ∈ Nat.toDigits 10 m)
  intro m n h
  have hlist := congrArg String.toList h
  cases m with
  | ofNat m =>
    rw [show (toString (Int.ofNat m)).toList = Nat.toDigits 10 m from toList_toString_nat m] at hlist
    cases n with
    | ofNat n => exact congrArg Int.ofNat (toDigits_inj (hlist.trans (toList_toString_nat n)))
    | negSucc n => exact absurd (hlist.trans (toList_toString_negSucc n)) (hsign m (n + 1))
  | negSucc m =>
    rw [toList_toString_negSucc] at hlist
    cases n with
    | ofNat n => exact absurd ((toList_toString_nat n).symm.trans hlist.symm) (hsign n (m + 1))
    | negSucc n =>
      rw [toList_toString_negSucc] at hlist
      exact congrArg Int.negSucc (Nat.succ.inj (toDigits_inj (List.cons.inj hlist).2))

/-- **What is written for a number is read as the number.** -/
theorem int?_toString {n : Int} (h : Readable n) : int? (toString n) = some n := by
  have hdigits (m : Nat) : ∀ c ∈ Nat.toDigits 10 m, isNumeralBlank c = false := fun c hc =>
    not_blank_of_isDigit (Nat.isDigit_of_mem_toDigits (by decide) (by decide) hc)
  cases n with
  | ofNat n =>
    have hlist : (toString (Int.ofNat n)).toList = Nat.toDigits 10 n := toList_toString_nat n
    exact int?_of_digits false (hlist ▸ hdigits n) (hlist ▸ splitSign_toDigits n) h
  | negSucc n =>
    refine int?_of_digits true ?_ (toList_toString_negSucc n ▸ rfl) h
    rw [toList_toString_negSucc]
    exact List.forall_mem_cons.2 ⟨by decide, hdigits (n + 1)⟩

end Switchboard.Text
