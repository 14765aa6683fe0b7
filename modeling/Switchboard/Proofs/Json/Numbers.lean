import Switchboard.Json.Reader
import Switchboard.Proofs.Decimal.Shortest
/-!
# Numbers are read back as they are printed

Digits are read as an integer, and digits with a point or an exponent as a floating number.  A floating number is printed as
its shortest digits, wherever the point stands in them (`render_spells`), and these are read as that number again
(`ofFloat_cases`).
-/
namespace Switchboard.Json

/-! ## Digits -/

/-- Whether characters that stand behind a number are no part of it. -/
def EndsNumber (rest : List Char) : Prop := ∀ c ∈ rest.head?, isDigit c = false ∧ c ≠ '.' ∧ c ≠ 'e' ∧ c ≠ 'E'

theorem endsNumber_cons {c : Char} (h : isDigit c = false ∧ c ≠ '.' ∧ c ≠ 'e' ∧ c ≠ 'E') (rest : List Char) :
    EndsNumber (c :: rest) := fun d hd => by
  cases hd
  exact h

theorem isDigit_of_isDigit {c : Char} (h : c.isDigit = true) : isDigit c = true := by
  obtain ⟨hlow, hhigh⟩ := Text.range_of_isDigit h
  rw [isDigit, Bool.and_eq_true, decide_eq_true_eq, decide_eq_true_eq, Char.le_def, Char.le_def, UInt32.le_iff_toNat_le,
    UInt32.le_iff_toNat_le]
  exact ⟨hlow, Nat.le_of_lt_succ hhigh⟩

theorem digitsValue_toDigits (n : Nat) : digitsValue (Nat.toDigits 10 n) = n := by
  have hread := Nat.ofDigitChars_ten_toDigits (n := n)
  rw [Nat.ofDigitChars_eq_foldl] at hread
  simp only [Nat.mul_comm 10] at hread
  exact hread

/-- No number but zero is written with a zero in front. -/
theorem toDigits_eq_zero_cons {n : Nat} {ds : List Char} (h : Nat.toDigits 10 n = '0' :: ds) : ds = [] := by
  induction n using Nat.strong_induction_on generalizing ds with
  | _ n ih =>
    by_cases hn : n < 10
    · rw [Nat.toDigits_of_lt_base hn] at h
      exact (List.cons.inj h).2.symm
    · have hfront : 0 < n / 10 := by omega
      rw [Nat.toDigits_of_base_le (by decide) (by omega)] at h
      cases hd : Nat.toDigits 10 (n / 10) with
      | nil => exact absurd hd Nat.toDigits_ne_nil
      | cons d more =>
        rw [hd, List.cons_append] at h
        obtain ⟨rfl, -⟩ := List.cons.inj h
        have hmore := ih (n / 10) (by omega) hd
        have hvalue := digitsValue_toDigits (n / 10)
        rw [hd, hmore] at hvalue
        have : n / 10 = 0 := hvalue.symm
        omega


theorem digitsValue_append (as bs : List Char) :
    digitsValue (as ++ bs) = digitsValue as * 10 ^ bs.length + digitsValue bs := by
  have hfrom (cs : List Char) (n : Nat) :
      cs.foldl (fun n c => n * 10 + (c.toNat - 48)) n = n * 10 ^ cs.length + digitsValue cs := by
    induction cs generalizing n with
    | nil => simp [digitsValue]
    | cons c cs ih =>
      rw [digitsValue, List.foldl_cons, List.foldl_cons, ih, ih (0 * 10 + _), List.length_cons, pow_succ]
      ring
  rw [digitsValue, List.foldl_append, hfrom]
  rfl

theorem digitsValue_zeros (n : Nat) : digitsValue (List.replicate n '0') = 0 := by
  induction n with
  | zero => rfl
  | succ n ih =>
    rw [List.replicate_succ, ← List.singleton_append, digitsValue_append, ih]
    simp [digitsValue]

/-- Digits end where no digit stands behind them. -/
theorem span_digits {ds rest : List Char} (hds : ∀ c ∈ ds, isDigit c = true) (hrest : ∀ c ∈ rest.head?, isDigit c = false) :
    (ds ++ rest).takeWhile isDigit = ds ∧ (ds ++ rest).dropWhile isDigit = rest := by
  have hstop : rest.takeWhile isDigit = [] ∧ rest.dropWhile isDigit = rest := by
    cases rest with
    | nil => exact ⟨rfl, rfl⟩
    | cons c more =>
      have hc : ¬ isDigit c = true := by simp [hrest c rfl]
      exact ⟨List.takeWhile_cons_of_neg hc, List.dropWhile_cons_of_neg hc⟩
  rw [List.takeWhile_append_of_pos hds, List.dropWhile_append_of_pos hds, hstop.1, hstop.2, List.append_nil]
  exact ⟨rfl, rfl⟩

/-- The digits before the point: one zero, or digits of which the first is another one. -/
inductive Whole : List Char → Prop where
  | zero : Whole ['0']
  | digits {d : Char} {ds : List Char} (hne : d ≠ '0') (hall : ∀ c ∈ d :: ds, isDigit c = true) : Whole (d :: ds)

theorem Whole.head {ds : List Char} (h : Whole ds) : ∃ d more, ds = d :: more ∧ Json.isDigit d = true := by
  cases h with
  | zero => exact ⟨_, _, rfl, rfl⟩
  | digits _ hall => exact ⟨_, _, rfl, hall _ List.mem_cons_self⟩

theorem Whole.append {ds es : List Char} (h : Whole ds) (hzero : ds ≠ ['0']) (hes : ∀ c ∈ es, Json.isDigit c = true) :
    Whole (ds ++ es) := by
  cases h with
  | zero => exact absurd rfl hzero
  | digits hne hall =>
    rw [List.cons_append]
    refine .digits hne fun c hc => ?_
    rw [← List.cons_append] at hc
    rcases List.mem_append.mp hc with hc | hc
    · exact hall c hc
    · exact hes c hc

theorem Whole.take {ds : List Char} (h : Whole ds) {n : Nat} (hn : 0 < n) : Whole (ds.take n) := by
  obtain ⟨n, rfl⟩ : ∃ k, n = k + 1 := ⟨n - 1, by omega⟩
  cases h with
  | zero => simpa using Whole.zero
  | digits hne hall =>
    refine .digits hne fun c hc => hall c ?_
    rcases List.mem_cons.mp hc with rfl | hc
    · exact List.mem_cons_self
    · exact List.mem_cons_of_mem _ (List.mem_of_mem_take hc)

theorem isDigit_toDigits (n : Nat) : ∀ c ∈ Nat.toDigits 10 n, isDigit c = true := fun c hc =>
  isDigit_of_isDigit (Nat.isDigit_of_mem_toDigits (by decide) (by decide) hc)

theorem whole_toDigits (n : Nat) : Whole (Nat.toDigits 10 n) := by
  have hall := isDigit_toDigits n
  cases hd : Nat.toDigits 10 n with
  | nil => exact absurd hd Nat.toDigits_ne_nil
  | cons d ds =>
    by_cases hne : d = '0'
    · subst hne
      rw [toDigits_eq_zero_cons hd]
      exact .zero
    · exact .digits hne (hd ▸ hall)

theorem readWhole_append {ds rest : List Char} (h : Whole ds) (hrest : ∀ c ∈ rest.head?, isDigit c = false) :
    readWhole (ds ++ rest) = some (ds, rest) := by
  cases h with
  | zero => rfl
  | @digits d ds hne hall =>
    obtain ⟨htake, hdrop⟩ := span_digits hall hrest
    rw [List.cons_append] at htake hdrop ⊢
    unfold readWhole
    split
    · rename_i hzero
      exact absurd (List.cons.inj hzero).1 hne
    · rename_i hcons
      obtain ⟨rfl, -⟩ := List.cons.inj hcons
      rw [if_pos (hall d List.mem_cons_self), htake, hdrop]
    · rename_i hnil
      cases hnil

/-- Digits with a minus in front of them, or without. -/
def signed (negative : Bool) (cs : List Char) : List Char := if negative then '-' :: cs else cs

theorem signed_append (negative : Bool) (cs rest : List Char) : signed negative cs ++ rest = signed negative (cs ++ rest) := by
  cases negative <;> rfl

/-! ## Integers -/

theorem readFraction_none {rest : List Char} (h : ∀ c ∈ rest.head?, c ≠ '.') : readFraction rest = ([], rest) := by
  cases rest with
  | nil => rfl
  | cons c more =>
    unfold readFraction
    split
    · rename_i hpoint
      exact absurd (List.cons.inj hpoint).1 (h c rfl)
    · rfl

theorem readExponent_none {rest : List Char} (h : ∀ c ∈ rest.head?, c ≠ 'e' ∧ c ≠ 'E') : readExponent rest = (none, rest) := by
  cases rest with
  | nil => rfl
  | cons c more =>
    have hmark : ¬ (decide (c = 'e') || decide (c = 'E')) = true := by simp [h c rfl]
    unfold readExponent
    exact if_neg hmark

/-- **An integer is read back** by its digits. -/
theorem readNumber_toDigits (start : List Char) (negative : Bool) {n : Nat} (hn : (Nat.toDigits 10 n).length ≤ 4300)
    {rest : List Char} (hrest : EndsNumber rest) :
    readNumber start negative (Nat.toDigits 10 n ++ rest) = .ok (.int (if negative then -(n : Int) else n), rest) := by
  rw [readNumber, readWhole_append (whole_toDigits n) fun c hc => (hrest c hc).1]
  simp only [readFraction_none fun c hc => (hrest c hc).2.1, readExponent_none fun c hc => (hrest c hc).2.2,
    digitsValue_toDigits]
  rw [if_pos (by decide), if_neg (by omega)]

/-! ## Floating numbers -/

/-- An exponent as it is written: its sign and its digits. -/
structure Exponent where
  negative : Bool
  digits : List Char

def Exponent.text (x : Exponent) : List Char := 'e' :: (if x.negative then '-' else '+') :: x.digits

def Exponent.value (x : Exponent) : ℤ := if x.negative then -(digitsValue x.digits : ℤ) else digitsValue x.digits

/-- A number as it is written: the digits before the point and behind it, and an exponent. -/
structure Written where
  whole : List Char
  fraction : List Char
  exponent : Option Exponent

namespace Written

def fractionText (w : Written) : List Char := if w.fraction = [] then [] else '.' :: w.fraction

def exponentText (w : Written) : List Char := (w.exponent.map Exponent.text).getD []

/-- The characters of a number. -/
def text (w : Written) : List Char := w.whole ++ (w.fractionText ++ w.exponentText)

/-- The digits of a number. -/
def digits (w : Written) : ℕ := digitsValue (w.whole ++ w.fraction)

/-- The power of ten that the digits of a number stand for. -/
def power (w : Written) : ℤ := (w.exponent.map Exponent.value).getD 0 - w.fraction.length

/-- A floating number that is written as it should be. -/
structure Fits (w : Written) : Prop where
  whole : Whole w.whole
  fraction : ∀ c ∈ w.fraction, isDigit c = true
  exponent : ∀ x ∈ w.exponent, x.digits ≠ [] ∧ ∀ c ∈ x.digits, isDigit c = true
  floating : w.fraction ≠ [] ∨ w.exponent ≠ none

end Written

theorem readFraction_digits {ds rest : List Char} (hds : ∀ c ∈ ds, isDigit c = true) (hne : ds ≠ [])
    (hrest : ∀ c ∈ rest.head?, isDigit c = false) : readFraction ('.' :: (ds ++ rest)) = (ds, rest) := by
  obtain ⟨htake, hdrop⟩ := span_digits hds hrest
  have hhead : (ds ++ rest).head?.any isDigit = true := by
    cases ds with
    | nil => exact absurd rfl hne
    | cons d ds => exact hds d List.mem_cons_self
  have hpoint : readFraction ('.' :: (ds ++ rest)) = if (ds ++ rest).head?.any isDigit = true then
      ((ds ++ rest).takeWhile isDigit, (ds ++ rest).dropWhile isDigit) else ([], '.' :: (ds ++ rest)) := rfl
  rw [hpoint, if_pos hhead, htake, hdrop]

theorem readExponent_text {x : Exponent} (hne : x.digits ≠ []) (hall : ∀ c ∈ x.digits, isDigit c = true) {rest : List Char}
    (hrest : ∀ c ∈ rest.head?, isDigit c = false) : readExponent (x.text ++ rest) = (some x.value, rest) := by
  obtain ⟨negative, ds⟩ := x
  obtain ⟨htake, hdrop⟩ := span_digits hall hrest
  have hhead : (ds ++ rest).head?.any isDigit = true := by
    cases ds with
    | nil => exact absurd rfl hne
    | cons d ds => exact hall d List.mem_cons_self
  have hmark : readExponent (Exponent.text ⟨negative, ds⟩ ++ rest) = if (ds ++ rest).head?.any isDigit = true then
      (some (Exponent.value ⟨negative, (ds ++ rest).takeWhile isDigit⟩), (ds ++ rest).dropWhile isDigit)
      else (none, Exponent.text ⟨negative, ds⟩ ++ rest) := by cases negative <;> rfl
  rw [hmark, if_pos hhead, htake, hdrop]

namespace Written.Fits

variable {w : Written}

theorem head (h : w.Fits) : ∃ d ds, w.text = d :: ds ∧ isDigit d = true := by
  obtain ⟨d, ds, hd, hdigit⟩ := h.whole.head
  exact ⟨d, _, by rw [text, hd, List.cons_append], hdigit⟩

/-- The exponent is read, if there is one. -/
theorem readExponent (h : w.Fits) {rest : List Char} (hrest : EndsNumber rest) :
    Json.readExponent (w.exponentText ++ rest) = (w.exponent.map Exponent.value, rest) ∧
      ∀ c ∈ (w.exponentText ++ rest).head?, isDigit c = false ∧ c ≠ '.' := by
  unfold exponentText
  cases hexponent : w.exponent with
  | none => exact ⟨readExponent_none fun c hc => (hrest c hc).2.2, fun c hc => ⟨(hrest c hc).1, (hrest c hc).2.1⟩⟩
  | some x =>
    obtain ⟨hne, hall⟩ := h.exponent x hexponent
    refine ⟨readExponent_text hne hall fun c hc => (hrest c hc).1, fun c hc => ?_⟩
    cases hc
    decide

/-- The digits behind the point are read, if there are any. -/
theorem readFraction (h : w.Fits) {rest : List Char} (hrest : ∀ c ∈ rest.head?, isDigit c = false ∧ c ≠ '.') :
    Json.readFraction (w.fractionText ++ rest) = (w.fraction, rest) ∧
      ∀ c ∈ (w.fractionText ++ rest).head?, isDigit c = false := by
  unfold fractionText
  split
  · rename_i hnone
    rw [hnone]
    exact ⟨readFraction_none fun c hc => (hrest c hc).2, fun c hc => (hrest c hc).1⟩
  · rename_i hsome
    refine ⟨readFraction_digits h.fraction hsome fun c hc => (hrest c hc).1, fun c hc => ?_⟩
    cases hc
    rfl

/-- **A floating number is read** by its digits and the power of ten that they stand for. -/
theorem read (h : w.Fits) (start : List Char) (negative : Bool) {rest : List Char} (hrest : EndsNumber rest) :
    readNumber start negative (w.text ++ rest) = .ok (.float (Decimal.toFloat negative w.digits w.power), rest) := by
  obtain ⟨hexponent, hmark⟩ := h.readExponent hrest
  obtain ⟨hfraction, hpoint⟩ := h.readFraction hmark
  have hfloating : ¬ (w.fraction.isEmpty && (w.exponent.map Exponent.value).isNone) = true := by
    rw [Bool.and_eq_true, List.isEmpty_iff, Option.isNone_iff_eq_none, Option.map_eq_none_iff, not_and_or]
    exact h.floating
  rw [text, List.append_assoc, List.append_assoc, readNumber, readWhole_append h.whole hpoint]
  simp only [hfraction, hexponent]
  rw [if_neg hfloating]
  rfl

end Written.Fits

/-! ## What is printed for a floating number -/

/-- Characters spell digits and a power of ten: they are a floating number that stands for the same value. -/
def Spells (cs : List Char) (d : ℕ) (p : ℤ) : Prop :=
  ∃ w : Written, cs = w.text ∧ w.Fits ∧ (w.digits : ℚ) * 10 ^ w.power = d * 10 ^ p

theorem digitsValue_whole_zeros (d k : ℕ) : digitsValue (Nat.toDigits 10 d ++ List.replicate k '0') = d * 10 ^ k := by
  rw [digitsValue_append, digitsValue_toDigits, digitsValue_zeros, List.length_replicate, Nat.add_zero]

theorem isDigit_replicate (k : ℕ) : ∀ c ∈ List.replicate k '0', isDigit c = true := fun c hc => by
  rw [List.eq_of_mem_replicate hc]
  rfl

theorem toDigits_ne_zero {d : ℕ} (hd : 0 < d) : Nat.toDigits 10 d ≠ ['0'] := fun h => by
  have hvalue := digitsValue_toDigits d
  rw [h] at hvalue
  exact hd.ne hvalue

/-- The point stands before the digits. -/
theorem spells_before (d k : ℕ) :
    Spells ("0.".toList ++ List.replicate k '0' ++ Nat.toDigits 10 d) d (-(k + (Nat.toDigits 10 d).length : ℕ)) := by
  have hne : List.replicate k '0' ++ Nat.toDigits 10 d ≠ [] := List.append_ne_nil_of_right_ne_nil _ Nat.toDigits_ne_nil
  have hdigits : ∀ c ∈ List.replicate k '0' ++ Nat.toDigits 10 d, isDigit c = true := fun c hc => by
    rcases List.mem_append.mp hc with hc | hc
    · exact isDigit_replicate k c hc
    · exact isDigit_toDigits d c hc
  refine ⟨⟨['0'], List.replicate k '0' ++ Nat.toDigits 10 d, none⟩, ?_, ⟨.zero, hdigits, (fun _ hx => nomatch hx), .inl hne⟩, ?_⟩
  · rw [Written.text, Written.fractionText, if_neg hne, Written.exponentText]
    simp
  · have hvalue : digitsValue (['0'] ++ (List.replicate k '0' ++ Nat.toDigits 10 d)) = d := by
      rw [digitsValue_append, digitsValue_append, digitsValue_zeros, digitsValue_toDigits]
      simp [digitsValue]
    rw [Written.digits, Written.power, hvalue]
    simp

/-- The point stands behind the digits. -/
theorem spells_behind {d : ℕ} (hd : 0 < d) (k : ℕ) : Spells (Nat.toDigits 10 d ++ List.replicate k '0' ++ ".0".toList) d k := by
  refine ⟨⟨Nat.toDigits 10 d ++ List.replicate k '0', ['0'], none⟩, ?_,
    ⟨(whole_toDigits d).append (toDigits_ne_zero hd) (isDigit_replicate k), List.forall_mem_singleton.mpr rfl,
      (fun _ hx => nomatch hx), .inl (List.cons_ne_nil _ _)⟩, ?_⟩
  · rw [Written.text, Written.fractionText, if_neg (List.cons_ne_nil _ _), Written.exponentText]
    simp
  · rw [Written.digits, Written.power, digitsValue_append, digitsValue_whole_zeros]
    simp [digitsValue, mul_assoc]

/-- The point stands between the digits. -/
theorem spells_between {d k : ℕ} (hpos : 0 < k) (hk : k < (Nat.toDigits 10 d).length) :
    Spells ((Nat.toDigits 10 d).take k ++ ".".toList ++ (Nat.toDigits 10 d).drop k) d (k - (Nat.toDigits 10 d).length) := by
  have hne : (Nat.toDigits 10 d).drop k ≠ [] := by
    rw [ne_eq, List.drop_eq_nil_iff]
    omega
  refine ⟨⟨(Nat.toDigits 10 d).take k, (Nat.toDigits 10 d).drop k, none⟩, ?_,
    ⟨(whole_toDigits d).take hpos, fun c hc => isDigit_toDigits d c (List.mem_of_mem_drop hc), (fun _ hx => nomatch hx),
      .inl hne⟩, ?_⟩
  · rw [Written.text, Written.fractionText, if_neg hne, Written.exponentText]
    simp
  · rw [Written.digits, Written.power, List.take_append_drop, digitsValue_toDigits, List.length_drop, Nat.cast_sub hk.le]
    simp

/-- The point stands behind the first digit, if there are more, and an exponent says where it belongs. -/
theorem spells_scientific (d : ℕ) {x : Exponent} (hne : x.digits ≠ []) (hall : ∀ c ∈ x.digits, isDigit c = true) :
    Spells ((if (Nat.toDigits 10 d).length = 1 then Nat.toDigits 10 d
      else (Nat.toDigits 10 d).take 1 ++ ".".toList ++ (Nat.toDigits 10 d).drop 1) ++ x.text) d
      (x.value + 1 - (Nat.toDigits 10 d).length) := by
  have hlong : 0 < (Nat.toDigits 10 d).length := Nat.length_toDigits_pos
  refine ⟨⟨(Nat.toDigits 10 d).take 1, (Nat.toDigits 10 d).drop 1, some x⟩, ?_,
    ⟨(whole_toDigits d).take Nat.one_pos, fun c hc => isDigit_toDigits d c (List.mem_of_mem_drop hc), ?_,
      .inr (Option.some_ne_none _)⟩, ?_⟩
  · rw [Written.text, Written.fractionText, Written.exponentText]
    split
    · rename_i hone
      have htake : (Nat.toDigits 10 d).take 1 = Nat.toDigits 10 d := List.take_of_length_le hone.le
      have hdrop : (Nat.toDigits 10 d).drop 1 = [] := List.drop_eq_nil_iff.mpr hone.le
      simp [htake, hdrop]
    · rename_i hmany
      have hdrop : (Nat.toDigits 10 d).drop 1 ≠ [] := by
        rw [ne_eq, List.drop_eq_nil_iff]
        omega
      rw [if_neg hdrop]
      simp
  · rintro _ ⟨⟩
    exact ⟨hne, hall⟩
  · rw [Written.digits, Written.power, List.take_append_drop, digitsValue_toDigits, List.length_drop, Nat.cast_sub hlong]
    simp only [Option.map_some, Option.getD_some]
    congr 2
    push_cast
    ring

/-- **The shortest digits are printed as a number** that stands for the same value, wherever the point is put. -/
theorem render_spells (layout : Decimal.Layout) {d : ℕ} (hd : 0 < d) (p : ℤ) :
    Spells (Decimal.render layout d p).toList d p := by
  have hlength (n : ℕ) : (toString n).length = (Nat.toDigits 10 n).length := by
    rw [← String.length_toList, Text.toList_toString_nat]
  unfold Decimal.render
  dsimp only
  rw [hlength d]
  split
  · split
    · have hspells := spells_before d (-(((Nat.toDigits 10 d).length : ℤ) + p)).toNat
      rw [show (-((-(((Nat.toDigits 10 d).length : ℤ) + p)).toNat + (Nat.toDigits 10 d).length : ℕ) : ℤ) = p by omega] at hspells
      simpa [Text.toList_toString_nat] using hspells
    · split
      · have hspells := spells_behind hd ((((Nat.toDigits 10 d).length : ℤ) + p).toNat - (Nat.toDigits 10 d).length)
        rw [show ((((((Nat.toDigits 10 d).length : ℤ) + p).toNat - (Nat.toDigits 10 d).length : ℕ)) : ℤ) = p by omega] at hspells
        simpa [Text.toList_toString_nat] using hspells
      · rename_i hpoint hmore
        have hspells := spells_between (d := d) (k := (((Nat.toDigits 10 d).length : ℤ) + p).toNat) (by omega) (by omega)
        rw [show (((((Nat.toDigits 10 d).length : ℤ) + p).toNat : ℕ) : ℤ) - (Nat.toDigits 10 d).length = p by omega] at hspells
        simpa [Text.toList_toString_nat] using hspells
  · generalize he : ((Nat.toDigits 10 d).length : ℤ) + p - 1 = e
    have hzeros := isDigit_replicate (layout.exponentDigits - (Nat.toDigits 10 e.natAbs).length)
    generalize hds : List.replicate (layout.exponentDigits - (Nat.toDigits 10 e.natAbs).length) '0' ++ Nat.toDigits 10 e.natAbs = ds
    have hspells := spells_scientific d (x := ⟨decide (e < 0), ds⟩)
      (hds ▸ List.append_ne_nil_of_right_ne_nil _ Nat.toDigits_ne_nil) fun c hc => by
        rw [← hds] at hc
        rcases List.mem_append.mp hc with hc | hc
        · exact hzeros c hc
        · exact isDigit_toDigits _ c hc
    have hvalue : Exponent.value ⟨decide (e < 0), ds⟩ = e := by
      rw [Exponent.value, ← hds, digitsValue_append, digitsValue_zeros, digitsValue_toDigits]
      simp only [decide_eq_true_eq]
      split <;> omega
    rw [hvalue, show e + 1 - ((Nat.toDigits 10 d).length : ℤ) = p by omega] at hspells
    have htext : Exponent.text ⟨decide (e < 0), ds⟩ =
        ("e" ++ (if e < 0 then "-" else "+") ++ Decimal.padLeft layout.exponentDigits (toString e.natAbs)).toList := by
      have hpad : (Decimal.padLeft layout.exponentDigits (toString e.natAbs)).toList = ds := by
        rw [Decimal.padLeft, String.toList_append, String.toList_ofList, Text.toList_toString_nat, hlength, hds]
      rw [Exponent.text, String.toList_append, String.toList_append, hpad]
      simp only [decide_eq_true_eq]
      split <;> rfl
    rw [htext] at hspells
    convert hspells using 1
    split <;> simp

/-! ## Floating numbers are read back -/

open Binary (signFor)
open Float.Model (UnpackedFloat)
open Float.Model.UnpackedFloat (Sign)

/-- The sign in front of a number. -/
def minus : Sign → String
  | .negative => "-"
  | .positive => ""

/-- What is printed for a floating number, by what it comes apart into. -/
def spelledFloat : UnpackedFloat → String
  | .notANumber => "NaN"
  | .infinity s => minus s ++ "Infinity"
  | .zero s => minus s ++ "0.0"
  | .finite s m e _ =>
    minus s ++ Decimal.render Decimal.standard (Decimal.digitsOf m e (e == -1074)).1 (Decimal.digitsOf m e (e == -1074)).2

theorem ofFloat_eq (x : Float) : Decimal.ofFloat x = spelledFloat x.toModel.unpack := by
  have hsign : (if x.toModel.toBits.toNat / 2 ^ 63 = 1 then "-" else "") = minus (Binary.signOf x.toModel) := by
    have hnegative := Binary.signOf_eq_negative x.toModel
    cases hs : Binary.signOf x.toModel with
    | negative => exact if_pos (hnegative.mp hs)
    | positive => exact if_neg fun h => by simp [hnegative.mpr h] at hs
  have hopen : Decimal.ofFloat x =
      let sign := if x.toModel.toBits.toNat / 2 ^ 63 = 1 then "-" else ""
      let e := Binary.exponentOf x.toModel
      let m := Binary.mantissaOf x.toModel
      if e = 2047 then if m = 0 then sign ++ "Infinity" else "NaN"
      else if e = 0 ∧ m = 0 then sign ++ "0.0"
      else
        let r := if e = 0 then Decimal.digitsOf m (-1074) true else Decimal.digitsOf (m + 2 ^ 52) ((e : ℤ) - 1075) (e == 1)
        sign ++ Decimal.render Decimal.standard r.1 r.2 := rfl
  rw [hopen, hsign, Binary.unpack_eq]
  dsimp only
  split
  · split <;> rfl
  · by_cases hnone : Binary.exponentOf x.toModel = 0
    · rw [dif_pos hnone]
      by_cases hempty : Binary.mantissaOf x.toModel = 0
      · rw [if_pos ⟨hnone, hempty⟩, dif_pos hempty]
        rfl
      · rw [if_neg (fun h => hempty h.2), dif_neg hempty, if_pos hnone]
        rfl
    · have hlowest : (Binary.exponentOf x.toModel == 1) = ((Binary.exponentOf x.toModel : ℤ) - 1075 == -1074) := by
        rw [Bool.eq_iff_iff, beq_iff_eq, beq_iff_eq]
        omega
      rw [if_neg (fun h => hnone h.1), dif_neg hnone, if_neg hnone, hlowest, Nat.add_comm]
      rfl

theorem eq_of_unpack {x : Float} {u : UnpackedFloat} (h : x.toModel.unpack = u) : x = .ofModel (.pack u) := by
  rw [← h, Binary.pack_unpack]

theorem ofModel_zero (negative : Bool) (p : ℤ) : Decimal.toFloat negative 0 p = .ofModel (.pack (.zero (signFor negative))) := by
  have hzero : Decimal.toFloat negative 0 p = if negative then -0.0 else 0.0 := rfl
  rw [hzero]
  cases negative
  · decide +kernel
  · decide +kernel

/-- **What is printed for a floating number is read as the number**: it is one of the words, or digits with a sign that the
number is read from. -/
theorem ofFloat_cases (x : Float) :
    (∃ word ∈ words, (Decimal.ofFloat x).toList = word.1 ∧ word.2 = .float x) ∨
      ∃ (negative : Bool) (w : Written), w.Fits ∧ Decimal.toFloat negative w.digits w.power = x ∧
        (Decimal.ofFloat x).toList = signed negative w.text := by
  have hfits := Binary.fits_unpack x.toModel
  rw [ofFloat_eq]
  cases hx : x.toModel.unpack with
  | notANumber =>
    have hword : (0.0 / 0.0 : Float) = .ofModel (.pack .notANumber) := by decide +kernel
    exact .inl ⟨("NaN".toList, .float (0.0 / 0.0)), by simp [words], rfl, congrArg Json.float (hword.trans (eq_of_unpack hx).symm)⟩
  | infinity s =>
    have hx := (eq_of_unpack hx).symm
    cases s with
    | positive =>
      have hword : (1.0 / 0.0 : Float) = .ofModel (.pack (.infinity .positive)) := by decide +kernel
      exact .inl ⟨("Infinity".toList, .float (1.0 / 0.0)), by simp [words], rfl, congrArg Json.float (hword.trans hx)⟩
    | negative =>
      have hword : (-1.0 / 0.0 : Float) = .ofModel (.pack (.infinity .negative)) := by decide +kernel
      exact .inl ⟨("-Infinity".toList, .float (-1.0 / 0.0)), by simp [words], rfl, congrArg Json.float (hword.trans hx)⟩
  | zero s =>
    have hx := (eq_of_unpack hx).symm
    have hzero : Written.Fits ⟨['0'], ['0'], none⟩ :=
      ⟨.zero, List.forall_mem_singleton.mpr rfl, (fun _ h => nomatch h), .inl (List.cons_ne_nil _ _)⟩
    cases s with
    | positive => exact .inr ⟨false, _, hzero, (ofModel_zero false _).trans hx, rfl⟩
    | negative => exact .inr ⟨true, _, hzero, (ofModel_zero true _).trans hx, rfl⟩
  | finite s m e hm =>
    rw [hx] at hfits
    cases hfits with
    | finite _ h =>
      have hnear := Decimal.digitsOf_near h (beq_iff_eq (a := e) (b := -1074))
      have hd := Binary.pos_of_mul_zpow_pos (hnear.pos h)
      obtain ⟨w, htext, hfits, hvalue⟩ := render_spells Decimal.standard hd (Decimal.digitsOf m e (e == -1074)).2
      rw [← hvalue] at hnear
      have hread (negative : Bool) (hs : signFor negative = s) : Decimal.toFloat negative w.digits w.power = x := by
        rw [eq_of_unpack hx, ← hs]
        exact congrArg Float.ofModel (Binary.toModel_toFloat negative h hnear)
      cases s with
      | positive => exact .inr ⟨false, w, hfits, hread false rfl, (String.toList_append ..).trans htext⟩
      | negative => exact .inr ⟨true, w, hfits, hread true rfl, (String.toList_append ..).trans (congrArg ('-' :: ·) htext)⟩

end Switchboard.Json
