import Mathlib
import Montage.Number.Binary

/-! The exact values of doubles. Every finite double has one encoding for each sign, and doubles are compared as
their values are. -/

namespace Montage.Proofs.DoubleValue
open Number Float.Model Float.Model.UnpackedFloat

/-- A mantissa and an exponent as they occur in the encoding of a double, whose exponent is at most 971 besides. -/
structure Canonical (mantissa : Nat) (exponent : Int) : Prop where
  small : mantissa < 2 ^ 53
  least : -1074 ≤ exponent
  full : 2 ^ 52 ≤ mantissa ∨ exponent = -1074

theorem leading_bit (mantissa : BitVec 52) : (1#1 ++ mantissa).toNat = 2 ^ 52 + mantissa.toNat := by
  rw [BitVec.toNat_append, ← Nat.shiftLeft_add_eq_or_of_lt mantissa.isLt]
  rfl

private theorem unpack_canonical {bits : BitVec 64} {sign : Sign} {mantissa : Nat} {exponent : Int}
    {positive : 0 < mantissa}
    (unpacked : UnpackedFloat.unpack Format.binary64 bits = .finite sign mantissa exponent positive) :
    Canonical mantissa exponent ∧ exponent ≤ 971 := by
  have small : (@unpackMantissa Format.binary64 bits).toNat < 2 ^ 52 := BitVec.isLt _
  have bound : (@unpackExponent Format.binary64 bits).toNat < 2 ^ 11 := BitVec.isLt _
  unfold UnpackedFloat.unpack at unpacked
  simp only [Format.exponentBias] at unpacked
  split at unpacked
  · split at unpacked <;> cases unpacked
  · next finite =>
    have below : (@unpackExponent Format.binary64 bits).toNat ≠ 2047 := fun full => finite (BitVec.eq_of_toNat_eq full)
    split at unpacked
    next subnormal =>
      split at unpacked
      · cases unpacked
      · cases unpacked
        rw [subnormal]
        exact ⟨⟨by omega, by decide, .inr rfl⟩, by decide⟩
    next normal =>
      have above : (@unpackExponent Format.binary64 bits).toNat ≠ 0 := fun zero => normal (BitVec.eq_of_toNat_eq zero)
      cases unpacked
      rw [leading_bit]
      exact ⟨⟨by omega, by omega, .inl (by omega)⟩, by omega⟩

private theorem log2_full {mantissa : Nat} (full : 2 ^ 52 ≤ mantissa) (small : mantissa < 2 ^ 53) :
    mantissa.log2 = 52 := by
  have positive : mantissa ≠ 0 := by omega
  have low := (Nat.le_log2 positive).mpr full
  have high := (Nat.log2_lt positive).mpr small
  omega

theorem unpack_components (sign : Sign) (exponent : BitVec 11) (mantissa : BitVec 52) :
    UnpackedFloat.unpack Format.binary64 (packComponents Format.binary64 sign exponent mantissa) =
      if exponent = -1#11 then
        if mantissa = 0#52 then .infinity sign else .notANumber
      else if exponent = 0#11 then
        if filled : mantissa = 0#52 then .zero sign
        else .finite sign mantissa.toNat (-1074) (by simpa [BitVec.toNat_pos, BitVec.pos_iff_ne_zero])
      else .finite sign (1#1 ++ mantissa).toNat (exponent.toNat - 1075) (by rw [leading_bit]; omega) := by
  unfold UnpackedFloat.unpack
  simp only [unpackMantissa_packComponents, unpackExponent_packComponents, unpackSign_packComponents,
    Sign.ofBitVec_toBitVec, Format.exponentBias]
  split
  · rfl
  · split
    next subnormal => simp only [subnormal]; rfl
    next => rfl

theorem pack_finite (sign : Sign) {mantissa : Nat} {exponent : Int} (positive : 0 < mantissa) :
    (Float.Model.pack (.finite sign mantissa exponent positive)).unpack =
      UnpackedFloat.unpack Format.binary64
        (if 2 ^ 11 ≤ (exponent + 1075).toNat + 1 then packedInfinity Format.binary64 sign
        else if mantissa.log2 = 52 then
          packComponents Format.binary64 sign (BitVec.ofNat 11 (exponent + 1075).toNat) (BitVec.ofNat 52 mantissa)
        else packComponents Format.binary64 sign 0#11 (BitVec.ofNat 52 mantissa)) := by
  have bias : exponent + ((Format.binary64.exponentBias : Nat) : Int) + (52 : Nat) = exponent + 1075 := by
    simp only [Format.exponentBias]
    omega
  have width : mantissa.log2 + 1 = Format.binary64.mantissaBits ↔ mantissa.log2 = 52 := by
    simp only [Format.mantissaBits]
    omega
  change UnpackedFloat.unpack Format.binary64 (UnpackedFloat.pack Format.binary64 _) = _
  simp only [UnpackedFloat.pack, bias, width]

section Encoded
variable {mantissa : Nat} {exponent : Int} (sign : Sign) (positive : 0 < mantissa)

private theorem unpack_pack_full (full : 2 ^ 52 ≤ mantissa) (small : mantissa < 2 ^ 53) (least : -1074 ≤ exponent)
    (most : exponent ≤ 971) :
    (Float.Model.pack (.finite sign mantissa exponent positive)).unpack = .finite sign mantissa exponent positive := by
  have biased : (BitVec.ofNat 11 (exponent + 1075).toNat).toNat = (exponent + 1075).toNat := by
    rw [BitVec.toNat_ofNat, Nat.mod_eq_of_lt (by omega)]
  have not_last : BitVec.ofNat 11 (exponent + 1075).toNat ≠ -1#11 := by
    intro same
    rw [same] at biased
    change 2047 = _ at biased
    omega
  have not_first : BitVec.ofNat 11 (exponent + 1075).toNat ≠ 0#11 := by
    intro same
    rw [same] at biased
    change 0 = _ at biased
    omega
  have value : (1#1 ++ BitVec.ofNat 52 mantissa).toNat = mantissa := by
    rw [leading_bit, BitVec.toNat_ofNat]
    omega
  have shift : ((exponent + 1075).toNat : Int) - 1075 = exponent := by omega
  rw [pack_finite, if_neg (by omega), if_pos (log2_full full small), unpack_components, if_neg not_last,
    if_neg not_first]
  simp only [value, biased, shift]

private theorem unpack_pack_least (short : mantissa < 2 ^ 52) :
    (Float.Model.pack (.finite sign mantissa (-1074) positive)).unpack = .finite sign mantissa (-1074) positive := by
  have not_full : mantissa.log2 ≠ 52 := by
    have := (Nat.log2_lt (by omega : mantissa ≠ 0)).mpr short
    omega
  have value : (BitVec.ofNat 52 mantissa).toNat = mantissa := by
    rw [BitVec.toNat_ofNat, Nat.mod_eq_of_lt (by omega)]
  have filled : BitVec.ofNat 52 mantissa ≠ 0#52 := by
    intro same
    rw [same] at value
    change 0 = _ at value
    omega
  rw [pack_finite, if_neg (by decide), if_neg not_full, unpack_components, if_neg (by decide), if_pos rfl,
    dif_neg filled]
  simp only [value]

/-- What is canonical comes back from its encoding. -/
theorem unpack_pack (canonical : Canonical mantissa exponent) (most : exponent ≤ 971) :
    (Float.Model.pack (.finite sign mantissa exponent positive)).unpack = .finite sign mantissa exponent positive := by
  obtain ⟨small, least, full⟩ := canonical
  by_cases large : 2 ^ 52 ≤ mantissa
  · exact unpack_pack_full sign positive large small least most
  · obtain rfl := full.resolve_left large
    exact unpack_pack_least sign positive (by omega)

end Encoded

theorem unpack_pack_large {mantissa : Nat} {exponent : Int} (large : 971 < exponent) (sign : Sign)
    (positive : 0 < mantissa) :
    (Float.Model.pack (.finite sign mantissa exponent positive)).unpack = .infinity sign := by
  rw [pack_finite, if_pos (by omega), packedInfinity, unpack_components, if_pos rfl]
  rfl

theorem unpack_pack_zero (sign : Sign) : (Float.Model.pack (.zero sign)).unpack = .zero sign := by
  change UnpackedFloat.unpack Format.binary64 (packedZero Format.binary64 sign) = _
  rw [packedZero, unpack_components, if_neg (by decide)]
  rfl

/-- The value of a canonical mantissa and exponent grows with the exponent first: a larger exponent is not the
least one, so that its mantissa is full. -/
private theorem scaled_lt {mantissa other : Nat} {exponent large : Int} (first : Canonical mantissa exponent)
    (second : Canonical other large) (less : exponent < large) :
    (mantissa : ℚ) * 2 ^ exponent < other * 2 ^ large := by
  have full : 2 ^ 52 ≤ other := second.full.resolve_right (by have := first.least; omega)
  have small : (mantissa : ℚ) < 2 ^ 53 := by exact_mod_cast first.small
  calc (mantissa : ℚ) * 2 ^ exponent < 2 ^ (53 : Int) * 2 ^ exponent :=
        mul_lt_mul_of_pos_right (by exact_mod_cast small) (by positivity)
    _ = 2 ^ (53 + exponent) := (zpow_add₀ two_ne_zero _ _).symm
    _ ≤ 2 ^ (52 + large) := zpow_le_zpow_right₀ one_le_two (by omega)
    _ = 2 ^ (52 : Int) * 2 ^ large := zpow_add₀ two_ne_zero _ _
    _ ≤ other * 2 ^ large := by
        have : (2 : ℚ) ^ (52 : Int) ≤ other := by exact_mod_cast full
        exact mul_le_mul_of_nonneg_right this (by positivity)

private theorem compare_scaled {mantissa other : Nat} {exponent second : Int} (one : Canonical mantissa exponent)
    (two : Canonical other second) :
    (compare exponent second).then (compare mantissa other) =
      compare ((mantissa : ℚ) * 2 ^ exponent) (other * 2 ^ second) := by
  rcases lt_trichotomy exponent second with less | rfl | more
  · rw [compare_lt_iff_lt.mpr less, compare_lt_iff_lt.mpr (scaled_lt one two less)]
    rfl
  · have scaled := cmp_mul_pos_right (by positivity : (0 : ℚ) < 2 ^ exponent) (mantissa : ℚ) other
    rw [compare_eq_iff_eq.mpr rfl, Ordering.eq_then, ← cmp_eq_compare, ← cmp_eq_compare, scaled]
    rcases lt_trichotomy mantissa other with less | rfl | more
    · rw [(cmp_eq_lt_iff _ _).mpr less, (cmp_eq_lt_iff _ _).mpr (by exact_mod_cast less)]
    · rw [cmp_self_eq_eq, cmp_self_eq_eq]
    · rw [(cmp_eq_gt_iff _ _).mpr more, (cmp_eq_gt_iff _ _).mpr (by exact_mod_cast more)]
  · rw [compare_gt_iff_gt.mpr more, compare_gt_iff_gt.mpr (scaled_lt two one more)]
    rfl

/-- The value of what is unpacked; what is no finite number counts as zero. -/
def unpackedValue : Float.Model.UnpackedFloat → ℚ
  | .finite .positive mantissa exponent _ => mantissa * 2 ^ exponent
  | .finite .negative mantissa exponent _ => -(mantissa * 2 ^ exponent)
  | _ => 0

def value (x : Float) : ℚ :=
  unpackedValue x.toModel.unpack

inductive Unpacked : Float.Model.UnpackedFloat → Prop where
  | infinity (sign : Sign) : Unpacked (.infinity sign)
  | notANumber : Unpacked .notANumber
  | zero (sign : Sign) : Unpacked (.zero sign)
  | finite (sign : Sign) {mantissa : Nat} {exponent : Int} (positive : 0 < mantissa)
      (canonical : Canonical mantissa exponent) (most : exponent ≤ 971) : Unpacked (.finite sign mantissa exponent positive)

theorem unpacked (x : Float) : Unpacked x.toModel.unpack := by
  cases parts : x.toModel.unpack with
  | infinity sign => exact .infinity sign
  | notANumber => exact .notANumber
  | zero sign => exact .zero sign
  | finite sign mantissa exponent positive =>
    obtain ⟨canonical, most⟩ := unpack_canonical parts
    exact .finite sign positive canonical most

theorem compare_value {first second : Float.Model.UnpackedFloat} (one : Unpacked first) (two : Unpacked second)
    (first_finite : first.isFinite = true) (second_finite : second.isFinite = true) :
    first.compare second = some (compare (unpackedValue first) (unpackedValue second)) := by
  have size {mantissa : Nat} (exponent : Int) (positive : 0 < mantissa) : (0 : ℚ) < mantissa * 2 ^ exponent := by
    positivity
  cases one with
  | infinity sign => cases first_finite
  | notANumber => cases first_finite
  | zero sign =>
    cases two with
    | infinity other => cases second_finite
    | notANumber => cases second_finite
    | zero other => rfl
    | finite other positive canonical _ =>
      cases other with
      | positive => exact congrArg some (compare_lt_iff_lt.mpr (size _ positive)).symm
      | negative => exact congrArg some (compare_gt_iff_gt.mpr (neg_neg_of_pos (size _ positive))).symm
  | finite sign positive canonical _ =>
    cases two with
    | infinity other => cases second_finite
    | notANumber => cases second_finite
    | zero other =>
      cases sign with
      | positive => exact congrArg some (compare_gt_iff_gt.mpr (size _ positive)).symm
      | negative => exact congrArg some (compare_lt_iff_lt.mpr (neg_neg_of_pos (size _ positive))).symm
    | finite other larger second_canonical _ =>
      have same := compare_scaled canonical second_canonical
      cases sign <;> cases other
      · have turned {a b : ℚ} : (compare a b).swap = compare (-a) (-b) := by
          rw [← cmp_eq_compare, ← cmp_eq_compare, cmp_swap]
          simp only [cmp, cmpUsing, neg_lt_neg_iff]
        exact congrArg some ((congrArg Ordering.swap same).trans turned)
      · exact congrArg some (compare_lt_iff_lt.mpr
          ((neg_neg_of_pos (size _ positive)).trans (size _ larger))).symm
      · exact congrArg some (compare_gt_iff_gt.mpr
          ((neg_neg_of_pos (size _ larger)).trans (size _ positive))).symm
      · exact congrArg some same

variable {x y : Float}

theorem lt_compares : x < y ↔ (x.toModel.unpack.compare y.toModel.unpack == some Ordering.lt) = true :=
  decide_eq_true_iff

theorem le_compares : x ≤ y ↔ (x.toModel.unpack.compare y.toModel.unpack).any (·.isLE) = true :=
  decide_eq_true_iff

theorem lt_iff (x_finite : x.isFinite = true) (y_finite : y.isFinite = true) : x < y ↔ value x < value y := by
  have compared := compare_value (unpacked x) (unpacked y) x_finite y_finite
  rw [lt_compares, compared, beq_iff_eq, Option.some.injEq, compare_lt_iff_lt]
  rfl

theorem le_iff (x_finite : x.isFinite = true) (y_finite : y.isFinite = true) : x ≤ y ↔ value x ≤ value y := by
  have compared := compare_value (unpacked x) (unpacked y) x_finite y_finite
  rw [le_compares, compared, Option.any_some, Ordering.isLE_iff_ne_gt]
  exact compare_le_iff_le

theorem beq_iff (x_finite : x.isFinite = true) (y_finite : y.isFinite = true) : (x == y) = true ↔ value x = value y := by
  have compared := compare_value (unpacked x) (unpacked y) x_finite y_finite
  change (x.toModel.unpack.compare y.toModel.unpack == some Ordering.eq) = true ↔ _
  rw [compared, beq_iff_eq, Option.some.injEq, compare_eq_iff_eq]
  rfl

theorem not_lt_iff (x_finite : x.isFinite = true) (y_finite : y.isFinite = true) : ¬x < y ↔ y ≤ x := by
  rw [lt_iff x_finite y_finite, le_iff y_finite x_finite, not_lt]

end Montage.Proofs.DoubleValue
