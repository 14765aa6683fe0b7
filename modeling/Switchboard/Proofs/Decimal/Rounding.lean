import Switchboard.Proofs.Decimal.Binary
/-!
# Rounding

A computed number is cut off at some bit; two more bits tell how much is left.  Shifting keeps what they tell
(`Represents.shiftRight`), so that in the end the mantissa is rounded to the nearest, and to an even one between two
(`Represents.nearest`).  Hence every value in the interval of a number, however it was computed, rounds to that number
(`roundWithAccuracy_eq`).
-/
namespace Switchboard.Binary

open Float.Model (Format UnpackedFloat totalExponent)
open Float.Model.UnpackedFloat

/-! ## What is left behind a mantissa -/

/-- What two bits tell of what is left behind a mantissa: how it compares with one half, and whether it is more than that. -/
def Left : Bool → Bool → ℚ → Prop
  | false, false, r => r = 0
  | false, true, r => 0 < r ∧ r < 1 / 2
  | true, false, r => r = 1 / 2
  | true, true, r => 1 / 2 < r ∧ r < 1

/-- A mantissa with two more bits stands for a value. -/
def Represents (em : ExtendedMantissa) (x : ℚ) : Prop := Left em.roundBit em.stickyBit (x - em.mantissa)

theorem Left.bounds : ∀ {round sticky : Bool} {r : ℚ}, Left round sticky r → 0 ≤ r ∧ r < 1
  | false, false, r, h => by
    rw [show r = 0 from h]
    norm_num
  | false, true, _, h => ⟨h.1.le, h.2.trans (by norm_num)⟩
  | true, false, r, h => by
    rw [show r = 1 / 2 from h]
    norm_num
  | true, true, _, h => ⟨(by norm_num : (0 : ℚ) ≤ 1 / 2).trans h.1.le, h.2⟩

/-- One more bit is left behind. -/
theorem Left.shift {round sticky : Bool} {r : ℚ} (h : Left round sticky r) {bit : ℕ} (hbit : bit = 0 ∨ bit = 1) :
    Left (bit != 0) (round || sticky) ((bit + r) / 2) := by
  rcases hbit with rfl | rfl <;> cases round <;> cases sticky <;> simp [Left] at h ⊢ <;>
    first
    | linarith
    | constructor <;> linarith

namespace Represents

theorem shiftRightOne {em : ExtendedMantissa} {x : ℚ} (h : Represents em x) : Represents em.shiftRightOne (x / 2) := by
  have hm : (em.mantissa : ℚ) = 2 * (em.mantissa / 2 : ℕ) + (em.mantissa % 2 : ℕ) := by
    exact_mod_cast (Nat.div_add_mod em.mantissa 2).symm
  have hleft := Left.shift h (Nat.mod_two_eq_zero_or_one em.mantissa)
  have hsame : (((em.mantissa % 2 : ℕ) : ℚ) + (x - em.mantissa)) / 2 = x / 2 - (em.mantissa / 2 : ℕ) := by linarith
  rwa [hsame] at hleft

/-- **Shifting keeps what the bits tell.** -/
theorem shiftRight {em : ExtendedMantissa} {x : ℚ} (h : Represents em x) (n : ℕ) : Represents (em >>> n) (x / 2 ^ n) := by
  show Represents (Nat.repeat ExtendedMantissa.shiftRightOne n em) _
  induction n with
  | zero => simpa [Nat.repeat] using h
  | succ n ih =>
    rw [pow_succ, ← div_div]
    exact ih.shiftRightOne

end Represents

/-- A whole number is nearest to a value, and even where another one is as near. -/
structure Nearest (n : ℕ) (x : ℚ) : Prop where
  low : (n : ℚ) - 1 / 2 ≤ x
  high : x ≤ n + 1 / 2
  even : x = (n : ℚ) - 1 / 2 ∨ x = n + 1 / 2 → n % 2 = 0

theorem Nearest.unique {n k : ℕ} {x : ℚ} (hn : Nearest n x) (hk : Nearest k x) : n = k := by
  -- two whole numbers that are as near follow one another, and only one of them is even
  have hside {n k : ℕ} (hn : Nearest n x) (hk : Nearest k x) : n ≤ k := by
    by_contra hlt
    have hle : (k : ℚ) + 1 ≤ n := by exact_mod_cast Nat.lt_of_not_le hlt
    have := hn.low
    have := hk.high
    have hnext : (n : ℚ) = k + 1 := by linarith
    have heven := hn.even (.inl (by linarith))
    have heven' := hk.even (.inr (by linarith))
    have : n = k + 1 := by exact_mod_cast hnext
    omega
  exact Nat.le_antisymm (hside hn hk) (hside hk hn)

/-- **A mantissa is rounded to the nearest.** -/
theorem Represents.nearest {em : ExtendedMantissa} {x : ℚ} (h : Represents em x) : Nearest em.roundedMantissa x := by
  obtain ⟨m, round, sticky⟩ := em
  have hx : x = m + (x - m) := by ring
  change Left round sticky (x - m) at h
  generalize x - m = r at hx h
  subst hx
  have hinside {n : ℕ} {y : ℚ} (hlow : (n : ℚ) - 1 / 2 < y) (hhigh : y < n + 1 / 2) : Nearest n y :=
    ⟨hlow.le, hhigh.le, fun h => by rcases h with h | h <;> linarith⟩
  cases round <;> cases sticky
  · rw [show r = 0 from h]
    exact hinside (n := m) (by linarith) (by linarith)
  · obtain ⟨hlow, hhigh⟩ := h
    exact hinside (n := m) (by linarith) (by linarith)
  · rw [show r = 1 / 2 from h]
    show Nearest (m + m % 2) _
    rcases Nat.mod_two_eq_zero_or_one m with heven | hodd
    · rw [heven]
      exact ⟨by push_cast; linarith, by push_cast; linarith, fun _ => heven⟩
    · rw [hodd]
      exact ⟨by push_cast; linarith, by push_cast; linarith, fun _ => by omega⟩
  · obtain ⟨hlow, hhigh⟩ := h
    exact hinside (n := m + 1) (by push_cast; linarith) (by push_cast; linarith)

/-! ## The interval of a number -/

/-- How far a number reaches downwards, in units of its last bit: half way to the number below it. -/
def reach (m : ℕ) (e : ℤ) : ℚ := if m = 2 ^ 52 ∧ e ≠ -1074 then 1 / 4 else 1 / 2

/-- A value lies in the interval of a number: no other is nearer. -/
structure Near (m : ℕ) (e : ℤ) (v : ℚ) : Prop where
  low : (m - reach m e) * 2 ^ e ≤ v
  high : v ≤ (m + 1 / 2) * 2 ^ e
  even : v = (m - reach m e) * 2 ^ e ∨ v = (m + 1 / 2) * 2 ^ e → m % 2 = 0

theorem reach_le (m : ℕ) (e : ℤ) : 1 / 4 ≤ reach m e ∧ reach m e ≤ 1 / 2 := by
  unfold reach
  split <;> norm_num

theorem zpow_two_pos (e : ℤ) : (0 : ℚ) < 2 ^ e := zpow_pos (by norm_num) e

theorem zpow_two_add (a b : ℤ) : (2 : ℚ) ^ (a + b) = 2 ^ a * 2 ^ b := zpow_add₀ (by norm_num) a b

theorem lt_of_zpow_two_lt {a b : ℤ} (h : (2 : ℚ) ^ a < 2 ^ b) : a < b := (zpow_lt_zpow_iff_right₀ (by norm_num)).mp h

/-- The exponent at which a value is rounded. -/
def target (m : ℕ) (e : ℤ) : ℤ := max (m.log2 + e - 52) (-1074)

theorem targetExponent_eq (m : ℕ) (e : ℤ) : Format.binary64.targetExponent (totalExponent m e) = target m e := by
  have hbits : ((Format.binary64.mantissaBits : ℕ) : ℤ) = 53 := rfl
  have hmin : Format.binary64.minExponent = -1074 := by decide
  unfold Format.targetExponent totalExponent target
  omega

/-- A value below a power of two has no more bits. -/
theorem log2_add_lt {M : ℕ} {E b : ℤ} {v : ℚ} (hlow : (M : ℚ) * 2 ^ E ≤ v) (hb : v < 2 ^ b) : M = 0 ∨ (M.log2 : ℤ) + E < b := by
  rcases Nat.eq_zero_or_pos M with hM | hM
  · exact .inl hM
  · have hlog : ((2 : ℚ) ^ M.log2) ≤ M := by exact_mod_cast Nat.log2_self_le hM.ne'
    refine .inr (lt_of_zpow_two_lt (lt_of_le_of_lt ?_ hb))
    rw [zpow_two_add, zpow_natCast]
    exact (mul_le_mul_of_nonneg_right hlog (zpow_two_pos E).le).trans hlow

/-- A value from a power of two on has no fewer bits. -/
theorem le_log2_add {M : ℕ} {E a : ℤ} {v : ℚ} (hhigh : v < (M + 1) * 2 ^ E) (ha : 2 ^ a ≤ v) : a ≤ (M.log2 : ℤ) + E := by
  have hlog : (M : ℚ) + 1 ≤ 2 ^ (M.log2 + 1) := by exact_mod_cast Nat.lt_log2_self
  have hlt : (2 : ℚ) ^ a < 2 ^ ((M.log2 + 1 : ℕ) + E) := by
    rw [zpow_two_add, zpow_natCast]
    exact (ha.trans_lt hhigh).trans_le (mul_le_mul_of_nonneg_right hlog (zpow_two_pos E).le)
  have := lt_of_zpow_two_lt hlt
  omega

/-- **A value in the interval of a number is rounded at the number's exponent**, but for the values right below the numbers with
one more bit: these are rounded at the exponent before it. -/
theorem target_of_near {m : ℕ} {e : ℤ} (h : Legal m e) {v : ℚ} (hv : Near m e v) {M : ℕ} {E : ℤ}
    (hlow : (M : ℚ) * 2 ^ E ≤ v) (hhigh : v < (M + 1) * 2 ^ E) (hE : E ≤ -1074 ∨ 52 ≤ M.log2) :
    target M E = e ∨ target M E = e - 1 ∧ m = 2 ^ 52 ∧ v < 2 ^ 52 * 2 ^ e := by
  have hp := zpow_two_pos e
  have hscaled (k : ℤ) : (2 : ℚ) ^ (k + e) = 2 ^ k * 2 ^ e := zpow_two_add k e
  have hmost : v < 2 ^ (53 + e) := by
    have hm : (m : ℚ) + 1 ≤ 2 ^ 53 := by exact_mod_cast h.lt
    have hless : ((m : ℚ) + 1 / 2) * 2 ^ e < 2 ^ (53 : ℤ) * 2 ^ e := mul_lt_mul_of_pos_right (by norm_num at hm ⊢; linarith) hp
    rw [hscaled]
    exact hv.high.trans_lt hless
  have hup := log2_add_lt hlow hmost
  have hzero : M = 0 → M.log2 = 0 := fun h => by rw [h]; rfl
  have hlowest := h.low
  unfold target
  rcases h.full with hfull | he
  · rcases le_or_gt ((2 : ℚ) ^ 52 * 2 ^ e) v with hnormal | hunder
    · have := le_log2_add (a := 52 + e) hhigh (by rw [hscaled]; exact_mod_cast hnormal)
      omega
    · -- only the interval of a number with all bits clear but the first reaches below it
      have hm : m = 2 ^ 52 := by
        by_contra hne
        have hmore : ((2 : ℚ) ^ 52 + 1) ≤ m := by exact_mod_cast (by omega : 2 ^ 52 + 1 ≤ m)
        have hreach := (reach_le m e).2
        have := mul_le_mul_of_nonneg_right (by linarith : (2 : ℚ) ^ 52 ≤ m - reach m e) hp.le
        linarith [hv.low]
      have hreach := (reach_le m e).2
      have hfirst : (m : ℚ) = 2 ^ 52 := by exact_mod_cast hm
      have hhalf : (2 : ℚ) ^ (51 : ℤ) ≤ m - reach m e := by
        rw [zpow_ofNat]
        linarith
      have := le_log2_add (a := 51 + e) hhigh (by rw [hscaled]; exact (mul_le_mul_of_nonneg_right hhalf hp.le).trans hv.low)
      have := log2_add_lt (b := 52 + e) hlow (by rw [hscaled]; exact_mod_cast hunder)
      by_cases he : e = -1074
      · omega
      · exact .inr ⟨by omega, hm, hunder⟩
  · omega

theorem Legal.target {m : ℕ} {e : ℤ} (h : Legal m e) : target m e = e := by
  have hlog : m.log2 < 53 := (Nat.log2_lt h.pos.ne').mpr h.lt
  have hlow := h.low
  unfold Binary.target
  rcases h.full with hfull | he
  · have := (Nat.le_log2 h.pos.ne').mpr hfull
    omega
  · omega

theorem shiftToTargetExponent_eq {m : ℕ} {e : ℤ} {n : ℕ} (h : target m e = e + n) (acc : Accuracy) :
    shiftToTargetExponent .binary64 m e acc = (ExtendedMantissa.ofMantissaAndAccuracy m acc >>> n, e + n) := by
  have hn : (e + n - e).toNat = n := by omega
  simp only [shiftToTargetExponent, shiftToExponent, targetExponent_eq, h, hn]

theorem Near.nearest {m : ℕ} {e : ℤ} {v : ℚ} (h : Near m e v) : Nearest m (v / 2 ^ e) := by
  have hp := zpow_two_pos e
  have hlow : (m : ℚ) - reach m e ≤ v / 2 ^ e := (le_div_iff₀ hp).mpr h.low
  have hreach := (reach_le m e).2
  refine ⟨by linarith, (div_le_iff₀ hp).mpr h.high, fun hend => h.even ?_⟩
  rcases hend with hend | hend
  · have hend' : v / 2 ^ e = m - reach m e := by linarith
    exact .inl ((div_eq_iff hp.ne').mp hend')
  · exact .inr ((div_eq_iff hp.ne').mp hend)

/-- Right below a number with no bit but the first, the nearest mantissa has a bit too many. -/
theorem Near.nearest_below {e : ℤ} {v : ℚ} (h : Near (2 ^ 52) e v) (he : e ≠ -1074) (hunder : v < 2 ^ 52 * 2 ^ e) :
    Nearest (2 ^ 53) (v / 2 ^ (e - 1)) := by
  have hp := zpow_two_pos (e - 1)
  have hsplit : (2 : ℚ) ^ e = 2 * 2 ^ (e - 1) := by
    rw [← zpow_one_add₀ (by norm_num), add_sub_cancel]
  have hreach : reach (2 ^ 52) e = 1 / 4 := if_pos ⟨rfl, he⟩
  have hlow := h.low
  rw [hreach, hsplit] at hlow
  push_cast at hlow
  rw [hsplit] at hunder
  have hlow : (2 : ℚ) ^ 53 - 1 / 2 ≤ v / 2 ^ (e - 1) := (le_div_iff₀ hp).mpr (by linarith)
  have hhigh : v / 2 ^ (e - 1) < 2 ^ 53 := (div_lt_iff₀ hp).mpr (by linarith)
  exact ⟨by push_cast; exact hlow, by push_cast; linarith, fun _ => by norm_num⟩

/-- **A value in the interval of a number is rounded to the number**, however it was cut off, as long as its bits are enough. -/
theorem roundWithAccuracy_eq (s : Sign) {m : ℕ} {e : ℤ} (h : Legal m e) {v : ℚ} (hv : Near m e v) {M : ℕ} {E : ℤ} {acc : Accuracy}
    (hM : Represents (.ofMantissaAndAccuracy M acc) (v / 2 ^ E)) (hE : E ≤ -1074 ∨ 52 ≤ M.log2) :
    roundWithAccuracy .binary64 s M E acc = .finite s m e h.pos := by
  have hp := zpow_two_pos E
  have hmantissa : (ExtendedMantissa.ofMantissaAndAccuracy M acc).mantissa = M := by
    unfold ExtendedMantissa.ofMantissaAndAccuracy
    split <;> rfl
  obtain ⟨hleft, hless⟩ := Left.bounds hM
  rw [hmantissa] at hleft hless
  have hlow : (M : ℚ) * 2 ^ E ≤ v := (le_div_iff₀ hp).mp (by linarith)
  have hhigh : v < (M + 1) * 2 ^ E := (div_lt_iff₀ hp).mp (by linarith)
  obtain ⟨n, hn⟩ : ∃ n : ℕ, target M E = E + n := by
    refine ⟨(target M E - E).toNat, ?_⟩
    unfold target
    omega
  have hrounded := (hM.shiftRight n).nearest
  rw [div_div, ← zpow_natCast, ← zpow_two_add] at hrounded
  have hshift := shiftToTargetExponent_eq hn acc
  unfold roundWithAccuracy
  rw [hshift]
  dsimp only
  rcases target_of_near h hv hlow hhigh hE with he | ⟨he, hm, hunder⟩
  · rw [hn] at he
    rw [he] at hrounded ⊢
    rw [hrounded.unique hv.nearest, shiftToTargetExponent_eq (n := 0) (by rw [h.target]; simp)]
    exact (dif_neg h.pos.ne').trans (finite_congr s rfl (by simp))
  · rw [hn] at he
    rw [he] at hrounded ⊢
    -- right below it the mantissa is rounded up to one with a bit too many, and that bit is shifted off
    have hlowest : -1074 ≤ e - 1 := he ▸ hn ▸ le_max_right _ _
    have hover : Nearest (2 ^ 53) (v / 2 ^ (e - 1)) := (hm ▸ hv).nearest_below (by omega) hunder
    have hnext : target (2 ^ 53) (e - 1) = e - 1 + (1 : ℕ) := by
      unfold target
      rw [Nat.log2_two_pow]
      omega
    rw [hrounded.unique hover, shiftToTargetExponent_eq hnext]
    have hshifted : (ExtendedMantissa.ofMantissaAndAccuracy (2 ^ 53) .exact >>> 1).mantissa = 2 ^ 52 := rfl
    refine (dif_neg fun hnone => ?_).trans (finite_congr s (hshifted.trans hm.symm) (by simp))
    exact absurd (hshifted.symm.trans hnone) (by decide)

end Switchboard.Binary
