import Switchboard.Proofs.Decimal.Scientific
/-!
# Shortest digits

The digits that are found for a number are rounded to that number again (`digitsOf_near`).  They lie in its interval, since the
search tries neighbours of the number on ever finer grids, and on the grid with seventeen digits one of them lies inside
(`accepts_seventeen`).
-/
namespace Switchboard.Decimal

open Binary (Legal Near reach reach_le zpow_two_pos zpow_two_add)

/-! ## Fractions -/

namespace Frac

/-- What a fraction stands for. -/
def value (a : Frac) : ℚ := a.num / a.den

theorem value_ofBinary (m : ℕ) (q : ℤ) : (ofBinary m q).value = m * 2 ^ q := by
  unfold ofBinary value
  split
  · rename_i hq
    obtain ⟨n, rfl⟩ := Int.eq_ofNat_of_zero_le hq
    rw [Int.toNat_natCast, Nat.pow_eq, zpow_natCast, Nat.cast_one, div_one]
    push_cast
    rfl
  · rename_i hq
    obtain ⟨n, rfl⟩ : ∃ n : ℕ, q = -n := ⟨(-q).toNat, by omega⟩
    rw [neg_neg, Int.toNat_natCast, Nat.pow_eq, zpow_neg, zpow_natCast, ← div_eq_mul_inv]
    push_cast
    rfl

theorem value_ofDecimal (d : ℕ) (p : ℤ) : (ofDecimal d p).value = d * 10 ^ p := by
  unfold ofDecimal value
  split
  · rename_i hp
    obtain ⟨n, rfl⟩ := Int.eq_ofNat_of_zero_le hp
    rw [Int.toNat_natCast, Nat.pow_eq, zpow_natCast, Nat.cast_one, div_one]
    push_cast
    rfl
  · rename_i hp
    obtain ⟨n, rfl⟩ : ∃ n : ℕ, p = -n := ⟨(-p).toNat, by omega⟩
    rw [neg_neg, Int.toNat_natCast, Nat.pow_eq, zpow_neg, zpow_natCast, ← div_eq_mul_inv]
    push_cast
    rfl

theorem den_ofBinary (m : ℕ) (q : ℤ) : 0 < (ofBinary m q).den := by
  unfold ofBinary
  split
  · exact Nat.one_pos
  · exact Nat.pow_pos (by decide)

theorem den_ofDecimal (d : ℕ) (p : ℤ) : 0 < (ofDecimal d p).den := by
  unfold ofDecimal
  split
  · exact Nat.one_pos
  · exact Nat.pow_pos (by decide)

theorem le_iff {a b : Frac} (ha : 0 < a.den) (hb : 0 < b.den) : a.le b = true ↔ a.value ≤ b.value := by
  have ha : (0 : ℚ) < a.den := by exact_mod_cast ha
  have hb : (0 : ℚ) < b.den := by exact_mod_cast hb
  rw [Frac.le, decide_eq_true_iff, value, value, div_le_div_iff₀ ha hb]
  norm_cast

theorem lt_iff {a b : Frac} (ha : 0 < a.den) (hb : 0 < b.den) : a.lt b = true ↔ a.value < b.value := by
  have ha : (0 : ℚ) < a.den := by exact_mod_cast ha
  have hb : (0 : ℚ) < b.den := by exact_mod_cast hb
  rw [Frac.lt, decide_eq_true_iff, value, value, div_lt_div_iff₀ ha hb]
  norm_cast

/-- The neighbours of a fraction on a grid. -/
theorem floorOn_le {a : Frac} (ha : 0 < a.den) (p : ℤ) :
    a.floorOn p * (10 : ℚ) ^ p ≤ a.value ∧ a.value < (a.floorOn p + 1) * 10 ^ p := by
  have hquotient {x y : ℕ} (hy : 0 < y) : ((x / y : ℕ) : ℚ) * y ≤ x ∧ (x : ℚ) < ((x / y : ℕ) + 1) * y := by
    constructor
    · exact_mod_cast Nat.div_mul_le_self x y
    · have hlt := Nat.lt_mul_div_succ x hy
      rw [Nat.mul_comm] at hlt
      exact_mod_cast hlt
  have hden : (0 : ℚ) < a.den := by exact_mod_cast ha
  unfold floorOn value
  split
  · rename_i hp
    obtain ⟨n, rfl⟩ := Int.eq_ofNat_of_zero_le hp
    obtain ⟨hlow, hhigh⟩ := hquotient (x := a.num) (Nat.mul_pos ha (Nat.pow_pos (n := n) (by decide : 0 < 10)))
    push_cast at hlow hhigh
    rw [Int.toNat_natCast, Nat.pow_eq, zpow_natCast, le_div_iff₀ hden, div_lt_iff₀ hden]
    constructor
    · exact le_of_eq_of_le (by ring) hlow
    · exact lt_of_lt_of_eq hhigh (by ring)
  · rename_i hp
    obtain ⟨n, rfl⟩ : ∃ n : ℕ, p = -n := ⟨(-p).toNat, by omega⟩
    obtain ⟨hlow, hhigh⟩ := hquotient (x := a.num * 10 ^ n) ha
    push_cast at hlow hhigh
    have hten : (0 : ℚ) < 10 ^ n := by positivity
    rw [neg_neg, Int.toNat_natCast, Nat.pow_eq, zpow_neg, zpow_natCast, le_div_iff₀ hden, div_lt_iff₀ hden]
    constructor
    · field_simp
      linarith
    · field_simp
      linarith

end Frac

/-! ## The interval of a number -/

/-- The interval in which digits are looked for. -/
def interval (m : ℕ) (q : ℤ) (lowest : Bool) : Interval :=
  ⟨if (m == Nat.pow 2 52 && !lowest) = true then .ofBinary (4 * m - 1) (q - 2) else .ofBinary (2 * m - 1) (q - 1),
    .ofBinary (2 * m + 1) (q - 1), m % 2 == 0⟩

theorem digitsOf_eq (m : ℕ) (q : ℤ) (lowest : Bool) :
    digitsOf m q lowest =
      let r := shortestFrom (.ofBinary m q) (interval m q lowest) (magnitude (.ofBinary m q)) 17 1
      dropZeros 20 r.1 r.2 := rfl

variable {m : ℕ} {q : ℤ} {lowest : Bool}

theorem interval_low (hm : 0 < m) (hlowest : lowest = true ↔ q = -1074) :
    0 < (interval m q lowest).low.den ∧ (interval m q lowest).low.value = (m - reach m q) * 2 ^ q := by
  have hboundary : (m == Nat.pow 2 52 && !lowest) = true ↔ m = 2 ^ 52 ∧ q ≠ -1074 := by
    rw [Bool.and_eq_true, beq_iff_eq, Bool.not_eq_true', ← Bool.not_eq_true, hlowest, Nat.pow_eq]
  have hscaled (k : ℤ) : (2 : ℚ) ^ q = 2 ^ k * 2 ^ (q - k) := by rw [← zpow_two_add, add_sub_cancel]
  unfold interval reach
  simp only [hboundary]
  split
  · refine ⟨Frac.den_ofBinary _ _, ?_⟩
    rw [Frac.value_ofBinary, Nat.cast_sub (by omega), hscaled 2]
    push_cast
    ring
  · refine ⟨Frac.den_ofBinary _ _, ?_⟩
    rw [Frac.value_ofBinary, Nat.cast_sub (by omega), hscaled 1]
    push_cast
    ring

theorem interval_high (m : ℕ) (q : ℤ) (lowest : Bool) :
    0 < (interval m q lowest).high.den ∧ (interval m q lowest).high.value = (m + 1 / 2) * 2 ^ q := by
  refine ⟨Frac.den_ofBinary _ _, ?_⟩
  have hscaled : (2 : ℚ) ^ q = 2 ^ (1 : ℤ) * 2 ^ (q - 1) := by rw [← zpow_two_add, add_sub_cancel]
  show (Frac.ofBinary (2 * m + 1) (q - 1)).value = _
  rw [Frac.value_ofBinary, hscaled, zpow_one]
  push_cast
  ring

/-- **The interval holds what is rounded to the number**, and at least what lies strictly between its ends. -/
theorem contains_near (hm : 0 < m) (hlowest : lowest = true ↔ q = -1074) {x : Frac} (hx : 0 < x.den)
    (h : (interval m q lowest).contains x = true) : Near m q x.value := by
  obtain ⟨hlowden, hlow⟩ := interval_low hm hlowest
  obtain ⟨hhighden, hhigh⟩ := interval_high m q lowest
  unfold Interval.contains at h
  split at h
  · rename_i hclosed
    rw [Bool.and_eq_true, Frac.le_iff hlowden hx, Frac.le_iff hx hhighden, hlow, hhigh] at h
    exact ⟨h.1, h.2, fun _ => beq_iff_eq.mp hclosed⟩
  · rw [Bool.and_eq_true, Frac.lt_iff hlowden hx, Frac.lt_iff hx hhighden, hlow, hhigh] at h
    exact ⟨h.1.le, h.2.le, fun hend => by rcases hend with hend | hend <;> linarith⟩

theorem contains_of_lt (hm : 0 < m) (hlowest : lowest = true ↔ q = -1074) {x : Frac} (hx : 0 < x.den)
    (hlow : (m - reach m q) * 2 ^ q < x.value) (hhigh : x.value < (m + 1 / 2) * 2 ^ q) :
    (interval m q lowest).contains x = true := by
  obtain ⟨hlowden, hlowvalue⟩ := interval_low hm hlowest
  obtain ⟨hhighden, hhighvalue⟩ := interval_high m q lowest
  unfold Interval.contains
  split
  · rw [Bool.and_eq_true, Frac.le_iff hlowden hx, Frac.le_iff hx hhighden, hlowvalue, hhighvalue]
    exact ⟨hlow.le, hhigh.le⟩
  · rw [Bool.and_eq_true, Frac.lt_iff hlowden hx, Frac.lt_iff hx hhighden, hlowvalue, hhighvalue]
    exact ⟨hlow, hhigh⟩

/-! ## The search -/

/-- Whether the search ends at a grid: a neighbour of the number lies in the interval, and is not zero. -/
def accepts (v : Frac) (i : Interval) (p : ℤ) : Bool :=
  (i.contains (.ofDecimal (v.floorOn p) p) && v.floorOn p != 0) || i.contains (.ofDecimal (v.floorOn p + 1) p)

/-- **The search ends in the interval** if it may go as far as a grid where it ends. -/
theorem shortestFrom_contains {v : Frac} {i : Interval} {mag : ℤ} {k n j : ℕ} (hlow : n ≤ j) (hhigh : j < n + k)
    (h : accepts v i (mag - j) = true) :
    i.contains (.ofDecimal (shortestFrom v i mag k n).1 (shortestFrom v i mag k n).2) = true := by
  induction k generalizing n with
  | zero => omega
  | succ k ih =>
    unfold shortestFrom
    dsimp only
    split
    · rename_i hbelow habove
      have hbelow := (Bool.and_eq_true_iff.mp hbelow).1
      split
      · exact habove
      · split
        · exact hbelow
        · split
          · exact hbelow
          · exact habove
    · rename_i hbelow _
      exact (Bool.and_eq_true_iff.mp hbelow).1
    · rename_i habove
      exact habove
    · rename_i hbelow habove
      refine ih ?_ (by omega)
      refine Nat.lt_of_le_of_ne hlow fun hn => ?_
      subst hn
      unfold accepts at h
      rw [hbelow, habove] at h
      cases h

theorem dropZeros_value (fuel d : ℕ) (p : ℤ) :
    ((dropZeros fuel d p).1 : ℚ) * 10 ^ (dropZeros fuel d p).2 = d * 10 ^ p := by
  induction fuel generalizing d p with
  | zero => rfl
  | succ fuel ih =>
    unfold dropZeros
    split
    · rename_i hzero
      have hten : d = 10 * (d / 10) := by
        have := of_decide_eq_true (Bool.and_eq_true_iff.mp hzero).1
        omega
      rw [ih, zpow_add_one₀ (by norm_num)]
      conv => rhs; rw [hten]
      push_cast
      ring
    · rfl

/-! ## Seventeen digits -/

/-- A power of ten is estimated by a power of two: ten is between the powers of two with exponents 3.321 and 3.322. -/
theorem ten_zpow_le {a b : ℤ} (hpos : 3322 * a ≤ 1000 * b) (hneg : 3321 * a ≤ 1000 * b) : (10 : ℚ) ^ a ≤ 2 ^ b := by
  have hlow : (2 : ℚ) ^ 3321 ≤ 10 ^ 1000 := by exact_mod_cast (by decide +kernel : 2 ^ 3321 ≤ 10 ^ 1000)
  have hhigh : (10 : ℚ) ^ 1000 ≤ 2 ^ 3322 := by exact_mod_cast (by decide +kernel : 10 ^ 1000 ≤ 2 ^ 3322)
  have hswap (x : ℚ) (n : ℕ) (c : ℤ) : (x ^ c) ^ n = (x ^ n) ^ c := by
    rw [← zpow_natCast, ← zpow_mul, mul_comm, zpow_mul, zpow_natCast]
  have hpow {c d : ℤ} (h : c ≤ d) : (2 : ℚ) ^ c ≤ 2 ^ d := zpow_le_zpow_right₀ (by norm_num) h
  have hraised : ((10 : ℚ) ^ a) ^ 1000 ≤ (2 ^ b) ^ 1000 := by
    rw [hswap 10, ← zpow_natCast (2 ^ b), ← zpow_mul, mul_comm b]
    rcases le_or_gt 0 a with ha | ha
    · obtain ⟨n, rfl⟩ := Int.eq_ofNat_of_zero_le ha
      calc ((10 : ℚ) ^ 1000) ^ (n : ℤ) ≤ (2 ^ 3322) ^ n := by
            rw [zpow_natCast]
            exact pow_le_pow_left₀ (by positivity) hhigh n
        _ = 2 ^ (3322 * (n : ℤ)) := by
            rw [← pow_mul]
            exact_mod_cast (zpow_natCast (2 : ℚ) (3322 * n)).symm
        _ ≤ 2 ^ (1000 * b) := hpow hpos
    · obtain ⟨n, rfl⟩ : ∃ n : ℕ, a = -n := ⟨(-a).toNat, by omega⟩
      calc ((10 : ℚ) ^ 1000) ^ (-(n : ℤ)) ≤ ((2 ^ 3321) ^ n)⁻¹ := by
            rw [zpow_neg, zpow_natCast]
            exact inv_anti₀ (by positivity) (pow_le_pow_left₀ (by positivity) hlow n)
        _ = 2 ^ (3321 * -(n : ℤ)) := by
            rw [← pow_mul, mul_neg, zpow_neg]
            exact_mod_cast congrArg (·⁻¹) (zpow_natCast (2 : ℚ) (3321 * n)).symm
        _ ≤ 2 ^ (1000 * b) := hpow hneg
  exact le_of_pow_le_pow_left₀ (by decide) (zpow_two_pos b).le hraised

/-- A candidate is taken where the one before it was no more than the number. -/
theorem le_of_find? {x : ℚ} {p : ℤ → Bool} (hp : ∀ k, p k = false → (10 : ℚ) ^ k ≤ x) {ks : List ℤ} {k d : ℤ}
    (hchain : (k :: (ks ++ [d])).IsChain fun a b => b = a + 1) (hk : (10 : ℚ) ^ (k - 1) ≤ x) :
    (10 : ℚ) ^ (((k :: ks).find? p).getD d - 1) ≤ x := by
  induction ks generalizing k with
  | nil =>
    obtain rfl : d = k + 1 := by simpa using hchain
    cases hpk : p k with
    | true => simpa [hpk] using hk
    | false => simpa [hpk] using hp k hpk
  | cons l ks ih =>
    obtain ⟨rfl, hchain⟩ := List.isChain_cons_cons.mp hchain
    cases hpk : p k with
    | true => simpa [hpk] using hk
    | false =>
      rw [List.find?_cons_of_neg (by simp [hpk])]
      exact ih hchain (by simpa using hp k hpk)

/-- **The decimal magnitude of a number is no more than it should be.** -/
theorem magnitude_le {a : Frac} (hnum : 0 < a.num) (hden : 0 < a.den)
    (hsize : ((a.num + 1).log2 : ℤ) - a.den.log2 ≤ 2000 ∧ -2000 ≤ ((a.num + 1).log2 : ℤ) - a.den.log2) :
    (10 : ℚ) ^ (magnitude a - 1) ≤ a.value := by
  unfold magnitude
  dsimp only
  generalize hbits : ((a.num + 1).log2 : ℤ) - a.den.log2 = bits at hsize
  generalize hestimate : bits * 30103 / 100000 = estimate
  have hfirst : (10 : ℚ) ^ (estimate - 2 - 1) ≤ a.value := by
    have hlow : (2 : ℚ) ^ (bits - 2) ≤ a.value := by
      have hnumerator : 2 ^ (a.num + 1).log2 ≤ 2 * a.num := (Nat.log2_self_le (by omega)).trans (by omega)
      have hdenominator : a.den < 2 * 2 ^ a.den.log2 := by
        rw [← pow_succ']
        exact Nat.lt_log2_self
      have hnumerator : (2 : ℚ) ^ (a.num + 1).log2 ≤ 2 * a.num := by exact_mod_cast hnumerator
      have hdenominator : (a.den : ℚ) < 2 * 2 ^ a.den.log2 := by exact_mod_cast hdenominator
      have hden : (0 : ℚ) < a.den := by exact_mod_cast hden
      have hsplit : (2 : ℚ) ^ (bits - 2) = 2 ^ (a.num + 1).log2 / (2 * (2 * 2 ^ a.den.log2)) := by
        rw [← hbits, zpow_sub₀ (by norm_num), zpow_sub₀ (by norm_num), zpow_natCast, zpow_natCast, zpow_ofNat]
        field_simp
      rw [hsplit, Frac.value, div_le_div_iff₀ (by positivity) hden]
      calc (2 : ℚ) ^ (a.num + 1).log2 * a.den ≤ 2 * a.num * a.den := mul_le_mul_of_nonneg_right hnumerator hden.le
        _ ≤ 2 * a.num * (2 * 2 ^ a.den.log2) := mul_le_mul_of_nonneg_left hdenominator.le (by positivity)
        _ = a.num * (2 * (2 * 2 ^ a.den.log2)) := by ring
    exact (ten_zpow_le (by omega) (by omega)).trans hlow
  refine @le_of_find? _ _ (fun k hk => ?_) [estimate - 1, estimate, estimate + 1, estimate + 2, estimate + 3] _ _ ?_ hfirst
  · refine le_of_not_gt fun h => ?_
    have : a.lt (.ofDecimal 1 k) = true := by
      rw [Frac.lt_iff hden (Frac.den_ofDecimal 1 k), Frac.value_ofDecimal, Nat.cast_one, one_mul]
      exact h
    rw [hk] at this
    cases this
  · simp only [List.cons_append, List.nil_append, List.isChain_cons_cons, List.isChain_singleton, and_true, true_and]
    omega

theorem log2_lt_two_pow {n k : ℕ} (h : n < 2 ^ k) : n.log2 ≤ k := by
  rcases Nat.eq_zero_or_pos n with rfl | hn
  · exact Nat.zero_le _
  · exact ((Nat.log2_lt hn.ne').mpr h).le

theorem zpow_magnitude_le (h : Legal m q) : (10 : ℚ) ^ (magnitude (.ofBinary m q) - 1) ≤ m * 2 ^ q := by
  rw [← Frac.value_ofBinary]
  obtain ⟨hpos, hlt, hlow, hhigh, -⟩ := h
  unfold Frac.ofBinary
  split
  · rename_i hq
    obtain ⟨n, rfl⟩ := Int.eq_ofNat_of_zero_le hq
    have hnum : 0 < m * 2 ^ n := Nat.mul_pos hpos (Nat.two_pow_pos n)
    have hmost : m * 2 ^ n + 1 < 2 ^ 1025 := by
      calc m * 2 ^ n + 1 ≤ m * 2 ^ n + 2 ^ n := Nat.add_le_add_left Nat.one_le_two_pow _
        _ = (m + 1) * 2 ^ n := by ring
        _ ≤ 2 ^ 53 * 2 ^ 971 := Nat.mul_le_mul hlt (Nat.pow_le_pow_right (by decide) (by omega))
        _ < 2 ^ 1025 := by decide +kernel
    have := log2_lt_two_pow hmost
    have hone : Nat.log2 1 = 0 := by decide
    refine magnitude_le hnum Nat.one_pos ?_
    simp only [Int.toNat_natCast, Nat.pow_eq, hone]
    omega
  · rename_i hq
    obtain ⟨n, rfl⟩ : ∃ n : ℕ, q = -n := ⟨(-q).toNat, by omega⟩
    have := log2_lt_two_pow (show m + 1 < 2 ^ 54 by omega)
    refine magnitude_le hpos (Nat.pow_pos (by decide)) ?_
    simp only [neg_neg, Int.toNat_natCast, Nat.pow_eq, Nat.log2_two_pow]
    omega

/-- **On the grid with seventeen digits the search ends.** -/
theorem accepts_seventeen (h : Legal m q) (hlowest : lowest = true ↔ q = -1074) :
    accepts (.ofBinary m q) (interval m q lowest) (magnitude (.ofBinary m q) - 17) = true := by
  have hmagnitude := zpow_magnitude_le h
  generalize hp : magnitude (.ofBinary m q) - 17 = p
  have hunit := zpow_two_pos q
  have hstep : (0 : ℚ) < 10 ^ p := zpow_pos (by norm_num) p
  have hfine : (10 : ℚ) ^ p * 10 ^ 16 ≤ m * 2 ^ q := by
    have hsplit : (10 : ℚ) ^ (magnitude (.ofBinary m q) - 1) = 10 ^ p * 10 ^ 16 := by
      rw [← zpow_natCast, ← zpow_add₀ (by norm_num), ← hp]
      congr 1
      push_cast
      ring
    rwa [← hsplit]
  obtain ⟨hbelow, habove⟩ := Frac.floorOn_le (Frac.den_ofBinary m q) p
  rw [Frac.value_ofBinary] at hbelow habove
  unfold accepts
  generalize (Frac.ofBinary m q).floorOn p = d at hbelow habove
  rw [Bool.or_eq_true, Bool.and_eq_true]
  have hreach : 0 < reach m q * 2 ^ q := mul_pos (by linarith [(reach_le m q).1]) hunit
  rcases lt_or_ge ((d + 1) * (10 : ℚ) ^ p) ((m + 1 / 2) * 2 ^ q) with hnear | hfar
  · refine .inr (contains_of_lt h.pos hlowest (Frac.den_ofDecimal _ _) ?_ ?_)
    · rw [Frac.value_ofDecimal]
      push_cast
      linarith
    · rw [Frac.value_ofDecimal]
      push_cast
      exact hnear
  · -- the interval is wider than a step of the grid
    have hwide : (10 : ℚ) ^ p < (reach m q + 1 / 2) * 2 ^ q := by
      unfold reach
      split
      · rename_i hboundary
        rw [hboundary.1] at hfine
        push_cast at hfine
        linarith
      · have hmost : (m : ℚ) * 2 ^ q < 2 ^ 53 * 2 ^ q := mul_lt_mul_of_pos_right (by exact_mod_cast h.lt) hunit
        linarith
    refine .inl ⟨contains_of_lt h.pos hlowest (Frac.den_ofDecimal _ _) ?_ ?_, ?_⟩
    · rw [Frac.value_ofDecimal]
      linarith
    · rw [Frac.value_ofDecimal]
      linarith
    · refine bne_iff_ne.mpr fun hd => ?_
      rw [hd, Nat.cast_zero, zero_add, one_mul] at habove
      linarith

/-- **The digits found for a number are rounded to the number.** -/
theorem digitsOf_near (h : Legal m q) (hlowest : lowest = true ↔ q = -1074) :
    Near m q ((digitsOf m q lowest).1 * 10 ^ (digitsOf m q lowest).2) := by
  have hcontains := shortestFrom_contains (k := 17) (n := 1) (j := 17) (by decide) (by decide)
    (accepts_seventeen h hlowest)
  have hnear := contains_near h.pos hlowest (Frac.den_ofDecimal _ _) hcontains
  rw [Frac.value_ofDecimal] at hnear
  rw [digitsOf_eq]
  dsimp only
  rwa [dropZeros_value]

end Switchboard.Decimal
