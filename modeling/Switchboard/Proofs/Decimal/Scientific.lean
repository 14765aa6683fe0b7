import Switchboard.Proofs.Decimal.Rounding
import Switchboard.Proofs.Text.Numeral
/-!
# Reading decimals

Digits and a power of ten are read as the number whose interval their value lies in (`toModel_toFloat`).  There are two ways to the
number: a product or a quotient of numbers that are exact, and one of whole numbers of any length.  Either is computed exactly up
to its last rounding.
-/
namespace Switchboard.Binary

open Float.Model (Format UnpackedFloat totalExponent)
open Float.Model.UnpackedFloat

variable {m : ℕ} {e : ℤ}

/-! ## Products and quotients -/

theorem represents_exact (M : ℕ) : Represents (.ofMantissaAndAccuracy M .exact) M := sub_self _

/-- What is left of a quotient is told by its remainder. -/
theorem represents_fraction (M : ℕ) {num den : ℕ} (h : num < den) :
    Represents (.ofMantissaAndAccuracy M (accuracyOfFraction num den)) (M + num / den) := by
  have hden : (0 : ℚ) < den := by exact_mod_cast Nat.zero_lt_of_lt h
  have hleft : (M : ℚ) + num / den - M = num / den := add_sub_cancel_left _ _
  unfold accuracyOfFraction
  split
  · rename_i hzero
    rw [hzero, Nat.cast_zero, zero_div, add_zero]
    exact represents_exact M
  · rename_i hsome
    have hnum : (0 : ℚ) < num := by exact_mod_cast Nat.pos_of_ne_zero hsome
    have hless : (num : ℚ) < den := by exact_mod_cast h
    rcases lt_trichotomy (2 * num) den with hside | hside | hside
    · rw [compare_lt_iff_lt.mpr hside]
      have hhalf : 2 * (num : ℚ) < den := by exact_mod_cast hside
      show 0 < (M : ℚ) + num / den - M ∧ (M : ℚ) + num / den - M < 1 / 2
      rw [hleft]
      exact ⟨div_pos hnum hden, (div_lt_iff₀ hden).mpr (by linarith)⟩
    · rw [compare_eq_iff_eq.mpr hside]
      have hhalf : 2 * (num : ℚ) = den := by exact_mod_cast hside
      show (M : ℚ) + num / den - M = 1 / 2
      rw [hleft]
      exact (div_eq_iff hden.ne').mpr (by linarith)
    · rw [compare_gt_iff_gt.mpr hside]
      have hhalf : (den : ℚ) < 2 * num := by exact_mod_cast hside
      show 1 / 2 < (M : ℚ) + num / den - M ∧ (M : ℚ) + num / den - M < 1
      rw [hleft]
      exact ⟨(lt_div_iff₀ hden).mpr (by linarith), (div_lt_one hden).mpr hless⟩

/-- **A product is rounded to the number whose interval it lies in.** -/
theorem mul_eq {m₁ m₂ : ℕ} {e₁ e₂ : ℤ} {h₁ : 0 < m₁} {h₂ : 0 < m₂} (h : Legal m e)
    (hv : Near m e ((m₁ * 2 ^ e₁) * (m₂ * 2 ^ e₂))) (hbits : 2 ^ 52 ≤ m₁ * m₂) :
    mul .binary64 (.finite .positive m₁ e₁ h₁) (.finite .positive m₂ e₂ h₂) = .finite .positive m e h.pos := by
  refine roundWithAccuracy_eq .positive h hv ?_ (.inr ((Nat.le_log2 (Nat.mul_pos h₁ h₂).ne').mpr hbits))
  have hvalue : ((m₁ : ℚ) * 2 ^ e₁) * (m₂ * 2 ^ e₂) / 2 ^ (e₁ + e₂) = (m₁ * m₂ : ℕ) := by
    rw [div_eq_iff (zpow_two_pos _).ne', zpow_two_add]
    push_cast
    ring
  rw [hvalue]
  exact represents_exact _

/-- A quotient, by the division of the mantissas with as many bits more as the exponent leaves room for. -/
theorem quotient_eq {m₁ m₂ : ℕ} (h₂ : 0 < m₂) {e₁ e₂ E : ℤ} {n : ℕ} (hn : e₁ - e₂ - E = n) :
    ((m₁ : ℚ) * 2 ^ e₁) / (m₂ * 2 ^ e₂) / 2 ^ E = (m₁ <<< n / m₂ : ℕ) + (m₁ <<< n % m₂ : ℕ) / (m₂ : ℚ) := by
  have hm₂ : (0 : ℚ) < m₂ := by exact_mod_cast h₂
  have he₂ := zpow_two_pos e₂
  have hE := zpow_two_pos E
  have hshift : ((m₁ <<< n : ℕ) : ℚ) = m₁ * 2 ^ n := by
    rw [Nat.shiftLeft_eq]
    push_cast
    rfl
  have hdivided : ((m₁ <<< n : ℕ) : ℚ) = m₂ * (m₁ <<< n / m₂ : ℕ) + (m₁ <<< n % m₂ : ℕ) := by
    exact_mod_cast (Nat.div_add_mod (m₁ <<< n) m₂).symm
  have hexponent : (2 : ℚ) ^ e₁ = 2 ^ n * (2 ^ e₂ * 2 ^ E) := by
    rw [← zpow_natCast, ← zpow_two_add, ← zpow_two_add]
    congr 1
    omega
  have hquotient : ((m₁ : ℚ) * 2 ^ e₁) / (m₂ * 2 ^ e₂) / 2 ^ E = (m₁ <<< n : ℕ) / m₂ := by
    rw [hshift, hexponent]
    field_simp
  rw [hquotient, hdivided]
  field_simp

/-- With as many bits more as the divisor has, and one for each of the quotient's, the quotient has all its bits. -/
theorem le_quotient {m₁ m₂ n : ℕ} (h₁ : 0 < m₁) (h₂ : 0 < m₂) (hbits : m₂.log2 + 53 ≤ m₁.log2 + n) :
    2 ^ 52 ≤ m₁ <<< n / m₂ := by
  rw [Nat.le_div_iff_mul_le h₂, Nat.shiftLeft_eq]
  calc 2 ^ 52 * m₂ ≤ 2 ^ 52 * 2 ^ (m₂.log2 + 1) := Nat.mul_le_mul_left _ Nat.lt_log2_self.le
    _ = 2 ^ (m₂.log2 + 53) := by rw [← pow_add]; congr 1; omega
    _ ≤ 2 ^ (m₁.log2 + n) := Nat.pow_le_pow_right (by decide) hbits
    _ = 2 ^ m₁.log2 * 2 ^ n := pow_add ..
    _ ≤ m₁ * 2 ^ n := Nat.mul_le_mul_right _ (Nat.log2_self_le h₁.ne')

/-- **A quotient is rounded to the number whose interval it lies in.** -/
theorem div_eq {m₁ m₂ : ℕ} {e₁ e₂ : ℤ} {h₁ : 0 < m₁} {h₂ : 0 < m₂} (h : Legal m e)
    (hv : Near m e ((m₁ * 2 ^ e₁) / (m₂ * 2 ^ e₂))) :
    div .binary64 (.finite .positive m₁ e₁ h₁) (.finite .positive m₂ e₂ h₂) = .finite .positive m e h.pos := by
  have htarget : Format.binary64.targetExponent (totalExponent m₁ e₁ - totalExponent m₂ e₂) =
      max (m₁.log2 + e₁ - m₂.log2 - e₂ - 53) (-1074) := by
    have hbits : ((Format.binary64.mantissaBits : ℕ) : ℤ) = 53 := rfl
    have hmin : Format.binary64.minExponent = -1074 := by decide
    unfold Format.targetExponent totalExponent
    omega
  unfold UnpackedFloat.div divCore
  dsimp only
  rw [htarget]
  generalize hE : min (e₁ - e₂) (max (m₁.log2 + e₁ - m₂.log2 - e₂ - 53) (-1074)) = E
  obtain ⟨n, hn⟩ : ∃ n : ℕ, e₁ - e₂ - E = n := ⟨(e₁ - e₂ - E).toNat, by omega⟩
  rw [hn, Int.toNat_natCast]
  refine roundWithAccuracy_eq .positive h hv ?_ ?_
  · rw [quotient_eq h₂ hn]
    exact represents_fraction _ (Nat.mod_lt _ h₂)
  · rcases le_or_gt E (-1074) with hlow | hlow
    · exact .inl hlow
    · have hquotient : 2 ^ 52 ≤ m₁ <<< n / m₂ := le_quotient h₁ h₂ (by omega)
      exact .inr ((Nat.le_log2 (by omega)).mpr hquotient)

/-! ## Digits and a power of ten -/

/-- What is rounded to a number is neither too small nor too large for one. -/
theorem Near.bounds {v : ℚ} (h : Legal m e) (hv : Near m e v) : 2 ^ (-1075 : ℤ) ≤ v ∧ v < 2 ^ (1024 : ℤ) := by
  have hp := zpow_two_pos e
  have hpow {a b : ℤ} (hab : a ≤ b) : (2 : ℚ) ^ a ≤ 2 ^ b := zpow_le_zpow_right₀ (by norm_num) hab
  constructor
  · have hm : (1 : ℚ) ≤ m := by exact_mod_cast h.pos
    have hreach := (reach_le m e).2
    calc (2 : ℚ) ^ (-1075 : ℤ) = 2 ^ (-1 : ℤ) * 2 ^ (-1074 : ℤ) := by simp only [← zpow_two_add, Int.reduceAdd]
      _ ≤ 2 ^ (-1 : ℤ) * 2 ^ e := mul_le_mul_of_nonneg_left (hpow h.low) (zpow_two_pos _).le
      _ ≤ (m - reach m e) * 2 ^ e := mul_le_mul_of_nonneg_right (by norm_num; linarith) hp.le
      _ ≤ v := hv.low
  · have hm : (m : ℚ) + 1 ≤ 2 ^ 53 := by exact_mod_cast h.lt
    calc v ≤ (m + 1 / 2) * 2 ^ e := hv.high
      _ < 2 ^ (53 : ℤ) * 2 ^ e := mul_lt_mul_of_pos_right (by rw [zpow_ofNat]; linarith) hp
      _ ≤ 2 ^ (53 : ℤ) * 2 ^ (971 : ℤ) := mul_le_mul_of_nonneg_left (hpow h.high) (zpow_two_pos _).le
      _ = 2 ^ (1024 : ℤ) := (zpow_two_add 53 971).symm

theorem Near.pos {v : ℚ} (h : Legal m e) (hv : Near m e v) : 0 < v := (zpow_two_pos _).trans_le (hv.bounds h).1

theorem pos_of_mul_zpow_pos {d : ℕ} {p : ℤ} (h : (0 : ℚ) < d * 10 ^ p) : 0 < d := by
  refine Nat.pos_of_ne_zero fun hd => ?_
  rw [hd, Nat.cast_zero, zero_mul] at h
  exact lt_irrefl _ h

/-- **Digits and a power of ten are rounded to the number whose interval they lie in.** -/
theorem ofScientific_eq {d : ℕ} {p : ℤ} (h : Legal m e) (hv : Near m e (d * 10 ^ p)) :
    UnpackedFloat.ofScientific .binary64 d p = .finite .positive m e h.pos := by
  obtain ⟨hleast, hmost⟩ := hv.bounds h
  have hd := pos_of_mul_zpow_pos (hv.pos h)
  have hbits : ((Format.binary64.exponentBits : ℕ)) = 11 := rfl
  have hdone : (1 : ℚ) ≤ d := by exact_mod_cast hd
  unfold UnpackedFloat.ofScientific
  rw [dif_neg hd.ne', hbits]
  rcases le_or_gt 0 p with hp | hp
  · obtain ⟨n, rfl⟩ := Int.eq_ofNat_of_zero_le hp
    have hn : (n : ℤ) < 1024 := by
      refine lt_of_zpow_two_lt (lt_of_le_of_lt ?_ hmost)
      rw [zpow_natCast, zpow_natCast]
      calc (2 : ℚ) ^ n ≤ 10 ^ n := pow_le_pow_left₀ (by norm_num) (by norm_num) n
        _ = 1 * 10 ^ n := (one_mul _).symm
        _ ≤ d * 10 ^ n := mul_le_mul_of_nonneg_right hdone (by positivity)
    rw [if_neg (by omega), if_neg (by omega), if_pos hp]
    refine mul_eq h ?_ ?_
    · have hvalue : ((d <<< Format.binary64.mantissaBits : ℕ) : ℚ) * 2 ^ (-(Format.binary64.mantissaBits : ℤ)) *
          ((10 ^ (n : ℤ).toNat : ℕ) * 2 ^ (0 : ℤ)) = d * 10 ^ (n : ℤ) := by
        rw [Nat.shiftLeft_eq, Int.toNat_natCast, zpow_neg, zpow_natCast, zpow_natCast, zpow_zero]
        push_cast
        field_simp
      rwa [hvalue]
    · have hfull : 2 ^ 52 ≤ d <<< Format.binary64.mantissaBits := by
        rw [Nat.shiftLeft_eq]
        exact (Nat.pow_le_pow_right (by decide) (by decide)).trans (Nat.le_mul_of_pos_left _ hd)
      exact hfull.trans (Nat.le_mul_of_pos_right _ (Nat.pow_pos (by decide)))
  · obtain ⟨n, rfl⟩ : ∃ n : ℕ, p = -n := ⟨(-p).toNat, by omega⟩
    have hn : -1075 < (d.log2 : ℤ) + 1 - n := by
      refine lt_of_zpow_two_lt (hleast.trans_lt ?_)
      have hlog : (d : ℚ) < 2 ^ (d.log2 + 1) := by exact_mod_cast Nat.lt_log2_self
      have hten : (10 : ℚ) ^ (-(n : ℤ)) ≤ 2 ^ (-(n : ℤ)) := by
        rw [zpow_neg, zpow_neg, zpow_natCast, zpow_natCast]
        exact inv_anti₀ (by positivity) (pow_le_pow_left₀ (by norm_num) (by norm_num) n)
      calc (d : ℚ) * 10 ^ (-(n : ℤ)) ≤ d * 2 ^ (-(n : ℤ)) := mul_le_mul_of_nonneg_left hten (Nat.cast_nonneg d)
        _ < 2 ^ (d.log2 + 1) * 2 ^ (-(n : ℤ)) := mul_lt_mul_of_pos_right hlog (zpow_two_pos _)
        _ = 2 ^ ((d.log2 : ℤ) + 1 - n) := by rw [sub_eq_add_neg, zpow_two_add]; norm_cast
    rw [if_neg (by omega), if_neg (by omega), if_neg (by omega)]
    refine div_eq h ?_
    have hvalue : ((d : ℚ) * 2 ^ (0 : ℤ)) / ((10 ^ (- -(n : ℤ)).toNat : ℕ) * 2 ^ (0 : ℤ)) = d * 10 ^ (-(n : ℤ)) := by
      rw [neg_neg, Int.toNat_natCast, zpow_neg, zpow_natCast, zpow_zero]
      push_cast
      rw [mul_one, mul_one, div_eq_mul_inv]
    rwa [hvalue]

/-! ## Floating numbers -/

/-- A positive number with all its bits has a value. -/
def Stands (u : UnpackedFloat) (v : ℚ) : Prop :=
  ∃ (m : ℕ) (e : ℤ) (h : 0 < m), u = .finite .positive m e h ∧ 2 ^ 52 ≤ m ∧ v = m * 2 ^ e

theorem Stands.mul {u w : UnpackedFloat} {x y : ℚ} (hu : Stands u x) (hw : Stands w y) (h : Legal m e) (hv : Near m e (x * y)) :
    UnpackedFloat.mul .binary64 u w = .finite .positive m e h.pos := by
  obtain ⟨m₁, e₁, h₁, rfl, hfull, rfl⟩ := hu
  obtain ⟨m₂, e₂, h₂, rfl, -, rfl⟩ := hw
  exact mul_eq h hv (hfull.trans (Nat.le_mul_of_pos_right _ h₂))

theorem Stands.div {u w : UnpackedFloat} {x y : ℚ} (hu : Stands u x) (hw : Stands w y) (h : Legal m e) (hv : Near m e (x / y)) :
    UnpackedFloat.div .binary64 u w = .finite .positive m e h.pos := by
  obtain ⟨m₁, e₁, h₁, rfl, -, rfl⟩ := hu
  obtain ⟨m₂, e₂, h₂, rfl, -, rfl⟩ := hw
  exact div_eq h hv

theorem near_self (m : ℕ) (e : ℤ) : Near m e (m * 2 ^ e) := by
  have hp := zpow_two_pos e
  have hreach := (reach_le m e).1
  have hlow : (m - reach m e) * 2 ^ e < m * 2 ^ e := mul_lt_mul_of_pos_right (by linarith) hp
  have hhigh : (m : ℚ) * 2 ^ e < (m + 1 / 2) * 2 ^ e := mul_lt_mul_of_pos_right (by linarith) hp
  exact ⟨hlow.le, hhigh.le, fun hend => by rcases hend with hend | hend <;> linarith⟩

/-- A whole number of no more than 53 bits is exact. -/
theorem stands_toFloat {d : ℕ} (hd : 0 < d) (hlt : d < 2 ^ 53) : Stands d.toUInt64.toFloat.toModel.unpack d := by
  have hlog : d.log2 < 53 := (Nat.log2_lt hd.ne').mpr hlt
  obtain ⟨n, hn⟩ : ∃ n, d.log2 + n = 52 := ⟨52 - d.log2, by omega⟩
  have hsame : d.toUInt64.toNat = d := UInt64.toNat_ofNat_of_lt' (hlt.trans (by decide))
  have hfull : 2 ^ 52 ≤ d <<< n := by
    rw [Nat.shiftLeft_eq, ← hn, pow_add]
    exact Nat.mul_le_mul_right _ (Nat.log2_self_le hd.ne')
  have hfits : d <<< n < 2 ^ 53 := by
    rw [Nat.shiftLeft_eq, show 53 = d.log2 + 1 + n by omega, pow_add 2 (d.log2 + 1)]
    exact Nat.mul_lt_mul_of_pos_right Nat.lt_log2_self (Nat.two_pow_pos n)
  have hlegal : Legal (d <<< n) (-n) := ⟨by omega, hfits, by omega, by omega, .inl hfull⟩
  have hvalue : (d : ℚ) = (d <<< n : ℕ) * 2 ^ (-(n : ℤ)) := by
    rw [Nat.shiftLeft_eq, zpow_neg, zpow_natCast]
    push_cast
    field_simp
  have hround : UnpackedFloat.ofUInt64 .binary64 d.toUInt64 = .finite .positive (d <<< n) (-n) hlegal.pos := by
    unfold UnpackedFloat.ofUInt64 UnpackedFloat.ofNat UnpackedFloat.ofInt UnpackedFloat.normalize
    rw [hsame, compare_gt_iff_gt.mpr (by exact_mod_cast hd)]
    unfold UnpackedFloat.round decreaseExponent
    have htarget : ((0 : ℤ) - target d 0).toNat = n := by
      unfold target
      omega
    dsimp only
    rw [Int.toNat_natCast, targetExponent_eq, htarget, zero_sub]
    refine roundWithAccuracy_eq .positive hlegal (near_self _ _) ?_ (.inr ((Nat.le_log2 hlegal.pos.ne').mpr hfull))
    rw [mul_div_cancel_right₀ _ (zpow_two_pos _).ne']
    exact represents_exact _
  have hunpack : d.toUInt64.toFloat.toModel.unpack = .finite .positive (d <<< n) (-n) hlegal.pos := by
    show (Float.Model.pack (UnpackedFloat.ofUInt64 .binary64 d.toUInt64)).unpack = _
    rw [hround, unpack_pack (.finite _ hlegal)]
  exact ⟨_, _, _, hunpack, hfull, hvalue⟩

/-- Whether something is a positive number with all its bits and a given whole value. -/
def standsFor (n : ℕ) : UnpackedFloat → Bool
  | .finite .positive m e _ => decide (2 ^ 52 ≤ m ∧ -52 ≤ e ∧ m * 2 ^ (e + 52).toNat = n * 2 ^ 52)
  | _ => false

theorem stands_of_standsFor {n : ℕ} {u : UnpackedFloat} (h : standsFor n u = true) : Stands u n := by
  unfold standsFor at h
  split at h
  · rename_i m e hm
    obtain ⟨hfull, hlow, hvalue⟩ := of_decide_eq_true h
    refine ⟨m, e, hm, rfl, hfull, ?_⟩
    obtain ⟨k, hk⟩ : ∃ k : ℕ, e = k - 52 := ⟨(e + 52).toNat, by omega⟩
    rw [hk] at hvalue ⊢
    rw [sub_add_cancel, Int.toNat_natCast] at hvalue
    have hvalue : (m : ℚ) * 2 ^ k = n * 2 ^ 52 := by exact_mod_cast hvalue
    rw [zpow_sub₀ (by norm_num), zpow_natCast, zpow_ofNat]
    field_simp
    linarith
  · cases h

theorem standsFor_powers : ∀ n : Fin Float.exactlyRepresentablePowersOfTen.size,
    standsFor (10 ^ n.val) Float.exactlyRepresentablePowersOfTen[n].toModel.unpack = true := by
  decide +kernel

/-- The powers of ten that are exact. -/
theorem stands_power {n : ℕ} (hn : n < Float.exactlyRepresentablePowersOfTen.size) :
    Stands Float.exactlyRepresentablePowersOfTen[n].toModel.unpack (10 ^ n) := by
  exact_mod_cast stands_of_standsFor (standsFor_powers ⟨n, hn⟩)

/-- **Digits and a power of ten are read as the number whose interval they lie in.** -/
theorem toModel_ofScientific {d n : ℕ} {below : Bool} (h : Legal m e)
    (hv : Near m e (d * 10 ^ (if below then -(n : ℤ) else n))) :
    (Float.ofScientific d below n).toModel = .pack (.finite .positive m e h.pos) := by
  have hd := pos_of_mul_zpow_pos (hv.pos h)
  unfold Float.ofScientific
  split
  · rename_i hexact
    have hpower := stands_power (Nat.lt_succ_of_le hexact.2)
    have hnumber := stands_toFloat hd hexact.1
    cases below with
    | true =>
      rw [if_pos rfl, zpow_neg, zpow_natCast, ← div_eq_mul_inv] at hv
      exact congrArg Float.Model.pack (hnumber.div hpower h hv)
    | false =>
      rw [if_neg (by decide), zpow_natCast] at hv
      exact congrArg Float.Model.pack (hnumber.mul hpower h hv)
  · cases below with
    | true => exact congrArg Float.Model.pack (ofScientific_eq h (Int.negOfNat_eq ▸ hv))
    | false => exact congrArg Float.Model.pack (ofScientific_eq h hv)

/-- How many digits a number has. -/
theorem length_toString {d : ℕ} (hd : 0 < d) :
    10 ^ ((toString d).length - 1) ≤ d ∧ d < 10 ^ (toString d).length ∧ 0 < (toString d).length := by
  have hpos : 0 < (toString d).length := Nat.length_repr_pos
  refine ⟨?_, (Nat.length_repr_le_iff hpos).mp (le_refl _), hpos⟩
  rcases Nat.eq_or_lt_of_le (show 1 ≤ (toString d).length from hpos) with hone | hmany
  · rw [← hone]
    exact hd
  · refine Nat.le_of_not_lt fun hlt => ?_
    have : (toString d).length ≤ (toString d).length - 1 := (Nat.length_repr_le_iff (by omega)).mpr hlt
    omega

/-- What is rounded to a number has no more than 400 digits before the point or zeros behind it. -/
theorem Near.digits {d : ℕ} {p : ℤ} (h : Legal m e) (hv : Near m e (d * 10 ^ p)) :
    -400 ≤ (toString d).length + p ∧ (toString d).length + p ≤ 400 := by
  obtain ⟨hleast, hmost⟩ := hv.bounds h
  have hd := pos_of_mul_zpow_pos (hv.pos h)
  obtain ⟨hlow, hhigh, hpos⟩ := length_toString hd
  have hten (a b : ℤ) : (10 : ℚ) ^ (a + b) = 10 ^ a * 10 ^ b := zpow_add₀ (by norm_num) a b
  have hp : (0 : ℚ) < 10 ^ p := zpow_pos (by norm_num) p
  constructor
  · by_contra hless
    have hvalue : (d : ℚ) * 10 ^ p < 10 ^ ((toString d).length + p) := by
      have : (d : ℚ) < 10 ^ (toString d).length := by exact_mod_cast hhigh
      rw [hten, zpow_natCast]
      exact mul_lt_mul_of_pos_right this hp
    have hsmall : (10 : ℚ) ^ ((toString d).length + p) ≤ 10 ^ (-401 : ℤ) := zpow_le_zpow_right₀ (by norm_num) (by omega)
    have htiny : (10 : ℚ) ^ (-401 : ℤ) < 2 ^ (-1075 : ℤ) := by
      rw [zpow_neg, zpow_neg, zpow_ofNat, zpow_ofNat]
      exact inv_strictAnti₀ (by positivity) (by exact_mod_cast (by decide +kernel : 2 ^ 1075 < 10 ^ 401))
    exact absurd ((hvalue.trans_le hsmall).trans htiny) (not_lt.mpr hleast)
  · by_contra hmore
    have hvalue : (10 : ℚ) ^ (((toString d).length - 1 : ℕ) + p) ≤ d * 10 ^ p := by
      have : (10 : ℚ) ^ ((toString d).length - 1) ≤ d := by exact_mod_cast hlow
      rw [hten, zpow_natCast]
      exact mul_le_mul_of_nonneg_right this hp.le
    have hlarge : (10 : ℚ) ^ (400 : ℤ) ≤ 10 ^ (((toString d).length - 1 : ℕ) + p) := zpow_le_zpow_right₀ (by norm_num) (by omega)
    have hhuge : (2 : ℚ) ^ (1024 : ℤ) < 10 ^ (400 : ℤ) := by
      rw [zpow_ofNat, zpow_ofNat]
      exact_mod_cast (by decide +kernel : 2 ^ 1024 < 10 ^ 400)
    exact absurd (hhuge.trans_le (hlarge.trans hvalue)) (not_lt.mpr hmost.le)

/-- The sign that a minus stands for. -/
def signFor (negative : Bool) : Sign := if negative then .negative else .positive

/-- **A decimal is read as the number whose interval it lies in.** -/
theorem toModel_toFloat (negative : Bool) {d : ℕ} {p : ℤ} (h : Legal m e) (hv : Near m e (d * 10 ^ p)) :
    (Decimal.toFloat negative d p).toModel = .pack (.finite (signFor negative) m e h.pos) := by
  obtain ⟨hleast, hmost⟩ := hv.digits h
  have hd := pos_of_mul_zpow_pos (hv.pos h)
  have hlarge : ¬ ((toString d).length : ℤ) + p > 400 := by omega
  have hsmall : ¬ ((toString d).length : ℤ) + p < -400 := by omega
  have hread : (if p ≥ 0 then Float.ofScientific d false p.toNat else Float.ofScientific d true (-p).toNat).toModel =
      .pack (.finite .positive m e h.pos) := by
    split
    · rename_i hp
      refine toModel_ofScientific h ?_
      rwa [if_neg (by decide), Int.toNat_of_nonneg hp]
    · rename_i hp
      refine toModel_ofScientific h ?_
      rwa [if_pos rfl, Int.toNat_of_nonneg (by omega), neg_neg]
  unfold Decimal.toFloat
  dsimp only
  rw [if_neg hd.ne', if_neg hlarge, if_neg hsmall]
  cases negative with
  | false => exact hread
  | true =>
    show Float.Model.pack (Float.Model.unpack (Float.toModel _)).neg = _
    rw [hread, unpack_pack (.finite _ h)]
    rfl

end Switchboard.Binary
