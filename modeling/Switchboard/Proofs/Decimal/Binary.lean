import Mathlib
import Switchboard.Decimal
/-!
# Binary numbers

A floating number is a word of sign, exponent and mantissa.  Taken apart it is nothing, an infinity, a zero or a mantissa with
a power of two; put together again it is the same word (`pack_unpack`), and what can be put together is what is taken apart
(`unpack_pack`).
-/
namespace Switchboard.Binary

open Float.Model (Format UnpackedFloat)
open Float.Model.UnpackedFloat

/-- A mantissa and an exponent of a number: the mantissa has all its bits, or the exponent is the least. -/
structure Legal (m : Nat) (e : Int) : Prop where
  pos : 0 < m
  lt : m < 2 ^ 53
  low : -1074 ≤ e
  high : e ≤ 971
  full : 2 ^ 52 ≤ m ∨ e = -1074

/-- What a word comes apart into. -/
inductive Fits : UnpackedFloat → Prop where
  | notANumber : Fits .notANumber
  | infinity (s : Sign) : Fits (.infinity s)
  | zero (s : Sign) : Fits (.zero s)
  | finite (s : Sign) {m : Nat} {e : Int} (h : Legal m e) : Fits (.finite s m e h.pos)

/-! ## Words -/

/-- The fields of a word. -/
theorem toNat_fields (b : BitVec Format.binary64.numBits) :
    (unpackSign b).toNat = b.toNat / 2 ^ 63 ∧ (unpackExponent b).toNat = b.toNat / 2 ^ 52 % 2048 ∧
      (unpackMantissa b).toNat = b.toNat % 2 ^ 52 := by
  have hb : b.toNat < 2 ^ 64 := b.isLt
  simp only [unpackSign, unpackExponent, unpackMantissa, BitVec.toNat_cast, BitVec.extractLsb_toNat, Nat.shiftRight_eq_div_pow]
  norm_num
  omega

theorem toNat_packComponents (s : Sign) (e : BitVec 11) (m : BitVec 52) :
    (packComponents Format.binary64 s e m).toNat = s.toBitVec.toNat * 2 ^ 63 + e.toNat * 2 ^ 52 + m.toNat := by
  have hfront : (s.toBitVec ++ e).toNat = s.toBitVec.toNat * 2 ^ 11 + e.toNat := by
    rw [BitVec.toNat_append, ← Nat.shiftLeft_add_eq_or_of_lt e.isLt, Nat.shiftLeft_eq]
  show ((s.toBitVec ++ e) ++ m).toNat = _
  rw [BitVec.toNat_append, ← Nat.shiftLeft_add_eq_or_of_lt m.isLt, Nat.shiftLeft_eq, hfront]
  omega

theorem toNat_one_append (m : BitVec 52) : (1#1 ++ m).toNat = 2 ^ 52 + m.toNat := by
  rw [BitVec.toNat_append, ← Nat.shiftLeft_add_eq_or_of_lt m.isLt]
  rfl

/-! ## Taking words apart -/

/-- The sign of a word. -/
def signOf (x : Float.Model) : Sign := Sign.ofBitVec (@unpackSign Format.binary64 x.toBits.toBitVec)

/-- The exponent field of a word. -/
def exponentOf (x : Float.Model) : Nat := x.toBits.toNat / 2 ^ 52 % 2048

/-- The mantissa field of a word. -/
def mantissaOf (x : Float.Model) : Nat := x.toBits.toNat % 2 ^ 52

theorem exponentOf_lt (x : Float.Model) : exponentOf x < 2048 := Nat.mod_lt _ (by decide)

theorem mantissaOf_lt (x : Float.Model) : mantissaOf x < 2 ^ 52 := Nat.mod_lt _ (by decide)

theorem signOf_eq_negative (x : Float.Model) : signOf x = .negative ↔ x.toBits.toNat / 2 ^ 63 = 1 := by
  have hsign : (@unpackSign Format.binary64 x.toBits.toBitVec).toNat = x.toBits.toNat / 2 ^ 63 :=
    (toNat_fields x.toBits.toBitVec).1
  have hlt : (@unpackSign Format.binary64 x.toBits.toBitVec).toNat < 2 := BitVec.isLt _
  unfold signOf Sign.ofBitVec
  split
  · rename_i h
    rw [h] at hsign
    exact iff_of_false nofun (by rw [← hsign]; decide)
  · rename_i h
    have : (@unpackSign Format.binary64 x.toBits.toBitVec).toNat ≠ 0 := fun h0 => h (BitVec.eq_of_toNat_eq h0)
    exact iff_of_true rfl (by omega)

/-- What a word comes apart into, by its fields. -/
theorem unpack_eq (x : Float.Model) :
    x.unpack =
      if exponentOf x = 2047 then if mantissaOf x = 0 then .infinity (signOf x) else .notANumber
      else if _ : exponentOf x = 0 then
        if hm : mantissaOf x = 0 then .zero (signOf x) else .finite (signOf x) (mantissaOf x) (-1074) (Nat.pos_of_ne_zero hm)
      else .finite (signOf x) (2 ^ 52 + mantissaOf x) (exponentOf x - 1075) (by omega) := by
  obtain ⟨-, hexponent, hmantissa⟩ := toNat_fields x.toBits.toBitVec
  change (@unpackExponent Format.binary64 x.toBits.toBitVec).toNat = exponentOf x at hexponent
  change (@unpackMantissa Format.binary64 x.toBits.toBitVec).toNat = mantissaOf x at hmantissa
  have hone : @unpackExponent Format.binary64 x.toBits.toBitVec = -1#11 ↔ exponentOf x = 2047 := by
    rw [← hexponent, ← BitVec.toNat_inj]
    rfl
  have hnone : @unpackExponent Format.binary64 x.toBits.toBitVec = 0#11 ↔ exponentOf x = 0 := by
    rw [← hexponent, ← BitVec.toNat_inj]
    rfl
  have hempty : @unpackMantissa Format.binary64 x.toBits.toBitVec = 0#52 ↔ mantissaOf x = 0 := by
    rw [← hmantissa, ← BitVec.toNat_inj]
    rfl
  have hbias : ((Format.binary64.exponentBias : Nat) : Int) + (Format.binary64.mantissaBitsWithoutImplicit : Nat) = 1075 := by decide
  unfold Float.Model.unpack Float.Model.UnpackedFloat.unpack
  simp only [hone, hnone, hempty, hexponent, hmantissa, toNat_one_append, hbias, signOf]
  split
  · rfl
  · split
    · split
      · rfl
      · simp [*]
    · rfl

theorem fits_unpack (x : Float.Model) : Fits x.unpack := by
  have hexponent := exponentOf_lt x
  have hmantissa := mantissaOf_lt x
  rw [unpack_eq]
  split
  · split
    · exact .infinity _
    · exact .notANumber
  · split
    · split
      · exact .zero _
      · exact .finite _ ⟨by omega, by omega, by omega, by omega, .inr rfl⟩
    · exact .finite _ ⟨by omega, by omega, by omega, by omega, .inl (by omega)⟩

/-! ## Putting words together -/

/-- The word of a number. -/
theorem toNat_pack_finite (s : Sign) {m : Nat} {e : Int} (h : Legal m e) :
    (Float.Model.pack (.finite s m e h.pos)).toBits.toNat =
      s.toBitVec.toNat * 2 ^ 63 + if 2 ^ 52 ≤ m then (e + 1075).toNat * 2 ^ 52 + (m - 2 ^ 52) else m := by
  obtain ⟨hpos, hlt, hlow, hhigh, hfull⟩ := h
  have hbias : e + (Format.binary64.exponentBias : Nat) + (Format.binary64.mantissaBitsWithoutImplicit : Nat) = e + 1075 := by
    have hbias : ((Format.binary64.exponentBias : Nat) : Int) = 1023 := by decide
    have hwidth : ((Format.binary64.mantissaBitsWithoutImplicit : Nat) : Int) = 52 := rfl
    omega
  have hlog : m.log2 + 1 = Format.binary64.mantissaBits ↔ 2 ^ 52 ≤ m := by
    rw [← Nat.le_log2 (by omega)]
    have := (Nat.log2_lt (by omega)).mpr hlt
    have hbits : Format.binary64.mantissaBits = 53 := rfl
    omega
  show (UnpackedFloat.pack Format.binary64 _).toNat = _
  unfold UnpackedFloat.pack
  simp only [hbias]
  rw [if_neg (by show ¬ (2 ^ 11 ≤ _); omega)]
  split
  · rename_i hfull
    rw [if_pos (hlog.mp hfull), toNat_packComponents]
    simp only [BitVec.toNat_ofNat]
    omega
  · rename_i hfew
    rw [if_neg (mt hlog.mpr hfew), toNat_packComponents]
    simp only [BitVec.toNat_ofNat]
    omega

theorem signOf_eq (s : Sign) {x : Float.Model} {n : Nat} (hn : n < 2 ^ 63) (h : x.toBits.toNat = s.toBitVec.toNat * 2 ^ 63 + n) :
    signOf x = s := by
  have hnegative := signOf_eq_negative x
  cases s with
  | negative =>
    have : (Sign.toBitVec .negative).toNat = 1 := rfl
    exact hnegative.mpr (by omega)
  | positive =>
    have : (Sign.toBitVec .positive).toNat = 0 := rfl
    cases hs : signOf x with
    | positive => rfl
    | negative =>
      have := hnegative.mp hs
      omega

theorem finite_congr (s : Sign) {m m' : Nat} {e e' : Int} {h : 0 < m} {h' : 0 < m'} (hm : m = m') (he : e = e') :
    UnpackedFloat.finite s m e h = .finite s m' e' h' := by
  subst hm he
  rfl

/-- **What can be put together is what is taken apart.** -/
theorem unpack_pack {u : UnpackedFloat} (h : Fits u) : (Float.Model.pack u).unpack = u := by
  cases h with
  | notANumber => rfl
  | infinity s => cases s <;> rfl
  | zero s => cases s <;> rfl
  | @finite s m e h =>
    have hword := toNat_pack_finite s h
    obtain ⟨hpos, hlt, hlow, hhigh, hfull⟩ := h
    generalize Float.Model.pack _ = x at hword
    have hs : s.toBitVec.toNat < 2 := s.toBitVec.isLt
    rw [unpack_eq]
    split at hword
    · have hsign : signOf x = s := signOf_eq s (by omega) hword
      have hexponent : exponentOf x = (e + 1075).toNat := by
        unfold exponentOf
        omega
      have hmantissa : mantissaOf x = m - 2 ^ 52 := by
        unfold mantissaOf
        omega
      rw [if_neg (by omega), dif_neg (by omega), hsign]
      exact finite_congr s (by omega) (by omega)
    · have hsign : signOf x = s := signOf_eq s (by omega) hword
      have hexponent : exponentOf x = 0 := by
        unfold exponentOf
        omega
      have hmantissa : mantissaOf x = m := by
        unfold mantissaOf
        omega
      rw [if_neg (by omega), dif_pos hexponent, dif_neg (by omega), hsign]
      exact finite_congr s hmantissa (by omega)

/-- **Put together again a word is the same.** -/
theorem pack_unpack (x : Float.Model) : Float.Model.pack x.unpack = x := by
  obtain ⟨⟨bits⟩, valid⟩ := x
  have hbits := pack_unpack_of_valid valid
  unfold Float.Model.pack Float.Model.unpack
  congr 2

/-! ## Comparing -/

/-- The place of a positive number in the row of all numbers. -/
def magnitude (m : Nat) (e : Int) : Int := (e + 1075) * 2 ^ 53 + m

/-- The place of a number; what is no number has none. -/
def rank : UnpackedFloat → Option Int
  | .notANumber => none
  | .infinity .positive => some (2 ^ 64)
  | .infinity .negative => some (-2 ^ 64)
  | .zero _ => some 0
  | .finite .positive m e _ => some (magnitude m e)
  | .finite .negative m e _ => some (-magnitude m e)

theorem Legal.magnitude {m : Nat} {e : Int} (h : Legal m e) : 0 < magnitude m e ∧ magnitude m e < 2 ^ 64 := by
  obtain ⟨hpos, hlt, hlow, hhigh, -⟩ := h
  unfold Binary.magnitude
  omega

theorem then_compare {m m' : Nat} {e e' : Int} (h : m < 2 ^ 53) (h' : m' < 2 ^ 53) :
    (compare e e').then (compare m m') = compare (magnitude m e) (magnitude m' e') := by
  unfold magnitude
  rcases lt_trichotomy e e' with he | rfl | he
  · rw [compare_lt_iff_lt.mpr he]
    exact (compare_lt_iff_lt.mpr (by omega)).symm
  · rw [compare_eq_iff_eq.mpr rfl]
    rcases lt_trichotomy m m' with hm | rfl | hm
    · rw [compare_lt_iff_lt.mpr hm]
      exact (compare_lt_iff_lt.mpr (by omega)).symm
    · rw [compare_eq_iff_eq.mpr rfl]
      exact (compare_eq_iff_eq.mpr rfl).symm
    · rw [compare_gt_iff_gt.mpr hm]
      exact (compare_gt_iff_gt.mpr (by omega)).symm
  · rw [compare_gt_iff_gt.mpr he]
    exact (compare_gt_iff_gt.mpr (by omega)).symm

theorem swap_compare (a b : Int) : (compare a b).swap = compare (-a) (-b) := by
  rcases lt_trichotomy a b with h | rfl | h
  · rw [compare_lt_iff_lt.mpr h]
    exact (compare_gt_iff_gt.mpr (by omega)).symm
  · rw [compare_eq_iff_eq.mpr rfl]
    exact (compare_eq_iff_eq.mpr rfl).symm
  · rw [compare_gt_iff_gt.mpr h]
    exact (compare_lt_iff_lt.mpr (by omega)).symm

/-- **Numbers compare as their places.** -/
theorem compare_eq {u v : UnpackedFloat} (hu : Fits u) (hv : Fits v) :
    u.compare v = (rank u).bind fun a => (rank v).map fun b => compare a b := by
  have hlt {a b : Int} (h : a < b) : some Ordering.lt = some (compare a b) := congrArg some (compare_lt_iff_lt.mpr h).symm
  have hgt {a b : Int} (h : b < a) : some Ordering.gt = some (compare a b) := congrArg some (compare_gt_iff_gt.mpr h).symm
  cases hu with
  | notANumber => cases hv <;> rfl
  | infinity s =>
    cases hv with
    | notANumber => cases s <;> rfl
    | infinity t => cases s <;> cases t <;> rfl
    | zero t => cases s <;> rfl
    | finite t h =>
      have := h.magnitude
      cases s <;> cases t
      · exact hlt (by omega)
      · exact hlt (by omega)
      · exact hgt (by omega)
      · exact hgt (by omega)
  | zero s =>
    cases hv with
    | notANumber => rfl
    | infinity t => cases t <;> rfl
    | zero t => rfl
    | finite t h =>
      have := h.magnitude
      cases t
      · exact hgt (by omega)
      · exact hlt (by omega)
  | finite s h =>
    have := h.magnitude
    cases hv with
    | notANumber => cases s <;> rfl
    | infinity t =>
      cases s <;> cases t
      · exact hgt (by omega)
      · exact hlt (by omega)
      · exact hgt (by omega)
      · exact hlt (by omega)
    | zero t =>
      cases s
      · exact hlt (by omega)
      · exact hgt (by omega)
    | finite t h' =>
      have := h'.magnitude
      cases s <;> cases t
      · refine congrArg some ?_
        show ((compare _ _).then (compare _ _)).swap = _
        rw [then_compare h.lt h'.lt, swap_compare]
      · exact hlt (by omega)
      · exact hgt (by omega)
      · exact congrArg some (then_compare h.lt h'.lt)

/-- The place of a floating number. -/
def place (x : Float) : Option Int := rank x.toModel.unpack

theorem compare_eq_some {x y : Float} {o : Ordering} :
    x.toModel.unpack.compare y.toModel.unpack = some o ↔
      ∃ a b, place x = some a ∧ place y = some b ∧ compare a b = o := by
  rw [compare_eq (fits_unpack _) (fits_unpack _), Option.bind_eq_some_iff]
  simp only [Option.map_eq_some_iff]
  exact ⟨fun ⟨a, ha, b, hb, h⟩ => ⟨a, b, ha, hb, h⟩, fun ⟨a, b, ha, hb, h⟩ => ⟨a, ha, b, hb, h⟩⟩

theorem lt_iff {x y : Float} : x < y ↔ ∃ a b, place x = some a ∧ place y = some b ∧ a < b := by
  have hlt : x < y ↔ x.toModel.unpack.compare y.toModel.unpack = some .lt := by
    show decide ((_ == _) = true) = true ↔ _
    rw [decide_eq_true_iff, beq_iff_eq]
  rw [hlt, compare_eq_some]
  simp only [compare_lt_iff_lt]

theorem le_iff {x y : Float} : x ≤ y ↔ ∃ a b, place x = some a ∧ place y = some b ∧ a ≤ b := by
  have hle : x ≤ y ↔ ∃ o, x.toModel.unpack.compare y.toModel.unpack = some o ∧ o.isLE = true := by
    show decide (Option.any _ _ = true) = true ↔ _
    rw [decide_eq_true_iff, Option.any_eq_true]
  rw [hle]
  simp only [compare_eq_some]
  constructor
  · rintro ⟨_, ⟨a, b, ha, hb, rfl⟩, hle⟩
    exact ⟨a, b, ha, hb, Int.isLE_compare.mp hle⟩
  · rintro ⟨a, b, ha, hb, hle⟩
    exact ⟨_, ⟨a, b, ha, hb, rfl⟩, Int.isLE_compare.mpr hle⟩

theorem beq_iff {x y : Float} : (x == y) = true ↔ ∃ a, place x = some a ∧ place y = some a := by
  have hbeq : (x == y) = true ↔ x.toModel.unpack.compare y.toModel.unpack = some .eq := by
    show (x.toModel.unpack.compare y.toModel.unpack == some .eq) = true ↔ _
    exact beq_iff_eq
  rw [hbeq, compare_eq_some]
  simp only [compare_eq_iff_eq]
  exact ⟨fun ⟨a, b, ha, hb, hab⟩ => ⟨a, ha, hab ▸ hb⟩, fun ⟨a, ha, hb⟩ => ⟨a, a, ha, hb, rfl⟩⟩

end Switchboard.Binary
