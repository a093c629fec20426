import Mathlib

namespace MeshExpr.FloatWhole

open Float.Model UnpackedFloat

/-!
# Whole numbers as floats

Counts travel between ranks as floats. A float has 53 bits of mantissa, so nothing is lost on the
way as long as the counts stay below `2 ^ 53`: sums of such counts are exact, and a conversion back
to an integer gives the number that was counted.

* `IsWhole x n` — the float `x` is the whole number `n`, stored as `stored n`.
* `round_eq_stored` — the one computation that everything rests on: a whole number with zeros
  behind it is rounded to the way in which it is stored.
* `IsWhole.add` and `IsWhole.toNat_toUInt64` — addition and conversion are exact.
-/

/-- How a whole number below `2 ^ 53` is stored: with zeros behind it, so that the mantissa has all
    of its bits. -/
def stored (n : ℕ) : UnpackedFloat :=
  if h : 0 < n then
    .finite .positive (n * 2 ^ (52 - n.log2)) (n.log2 - 52) (Nat.mul_pos h (Nat.two_pow_pos _))
  else .zero .positive

variable {m n k : ℕ} {e : ℤ} {sign : Sign}

/-- Zero is stored without a mantissa. -/
theorem stored_zero : stored 0 = .zero .positive := rfl

/-- Every other number is stored with a full mantissa. -/
theorem stored_of_pos (h : 0 < n) : stored n = .finite .positive (n * 2 ^ (52 - n.log2))
    (n.log2 - 52) (Nat.mul_pos h (Nat.two_pow_pos _)) :=
  dif_pos h

/-! ### Mantissas -/

/-- Zeros behind a number add to its bits. -/
theorem log2_mul_two_pow (hn : 0 < n) (k : ℕ) : (n * 2 ^ k).log2 = n.log2 + k := by
  have hlog := (Nat.log2_eq_iff hn.ne').mp rfl
  rw [Nat.log2_eq_iff (by positivity), Nat.add_right_comm, pow_add, pow_add]
  exact ⟨Nat.mul_le_mul_right _ hlog.1, Nat.mul_lt_mul_of_pos_right hlog.2 (Nat.two_pow_pos k)⟩

/-- A number below `2 ^ 53` has at most 53 bits. -/
theorem log2_le (hn : n < 2 ^ 53) : n.log2 ≤ 52 := by
  rcases Nat.eq_zero_or_pos n with rfl | hpos
  · simp
  · exact Nat.lt_succ_iff.mp ((Nat.log2_lt hpos.ne').mpr hn)

/-- The mantissa of a stored number has all of its bits. -/
theorem log2_mantissa (hpos : 0 < n) (hn : n < 2 ^ 53) : (n * 2 ^ (52 - n.log2)).log2 = 52 := by
  have hlog := log2_le hn
  rw [log2_mul_two_pow hpos]
  omega

/-- Zeros at the end are shifted out without a trace. -/
theorem shiftRight_mul_two_pow (m j k : ℕ) :
    (ExtendedMantissa.mk (m * 2 ^ (j + k)) false false) >>> k = ⟨m * 2 ^ j, false, false⟩ := by
  induction k generalizing j with
  | zero => rfl
  | succ k ih =>
    have hstep := ih (j + 1)
    rw [Nat.add_right_comm, Nat.add_assoc] at hstep
    show ((ExtendedMantissa.mk (m * 2 ^ (j + (k + 1))) false false) >>> k).shiftRightOne = _
    rw [hstep]
    simp [ExtendedMantissa.shiftRightOne, pow_succ, ← mul_assoc]

/-- A shift that only drops zeros is exact. -/
theorem shiftToExponent_eq (m k : ℕ) (e : ℤ) :
    shiftToExponent (m * 2 ^ k) e .exact (e + k) = (⟨m, false, false⟩, e + k) := by
  have hshift := shiftRight_mul_two_pow m 0 k
  rw [Nat.zero_add, pow_zero, mul_one] at hshift
  unfold shiftToExponent
  dsimp only
  rw [add_sub_cancel_left, Int.toNat_natCast]
  exact Prod.ext hshift rfl

/-! ### Rounding -/

/-- A number whose mantissa fits keeps its exponent. -/
theorem targetExponent_eq (hm : m.log2 = 52) (he : -1074 ≤ e + k) :
    Format.binary64.targetExponent (totalExponent (m * 2 ^ k) e) = e + k := by
  have hpos : 0 < m := by
    by_contra h
    simp [Nat.eq_zero_of_not_pos h] at hm
  simp only [Format.targetExponent, totalExponent, log2_mul_two_pow hpos, hm, Format.mantissaBits,
    Format.minExponent]
  norm_num
  omega

/-- So the shift before rounding is exact for it. -/
theorem shiftToTargetExponent_eq (hm : m.log2 = 52) (he : -1074 ≤ e + k) :
    shiftToTargetExponent .binary64 (m * 2 ^ k) e .exact = (⟨m, false, false⟩, e + k) := by
  unfold shiftToTargetExponent
  rw [targetExponent_eq hm he]
  exact shiftToExponent_eq m k e

/-- A full mantissa with zeros behind it loses only the zeros. -/
theorem roundWithAccuracy_eq (sign : Sign) (hm : m.log2 = 52) (hpos : 0 < m)
    (he : -1074 ≤ e + k) :
    roundWithAccuracy .binary64 sign (m * 2 ^ k) e .exact = .finite sign m (e + k) hpos := by
  -- There is nothing left for the second shift.
  have hlater := shiftToTargetExponent_eq (k := 0) hm (by simpa using he)
  rw [pow_zero, mul_one, Nat.cast_zero, add_zero] at hlater
  unfold roundWithAccuracy
  rw [shiftToTargetExponent_eq hm he]
  simp only [ExtendedMantissa.roundedMantissa, ExtendedMantissa.accuracy,
    Accuracy.roundToNearestEven, hlater, hpos.ne', ↓reduceDIte]

/-- A whole number is rounded to the way in which it is stored, however many zeros stand behind
    it. -/
theorem round_eq_stored (hpos : 0 < n) (hn : n < 2 ^ 53) (k : ℕ) :
    UnpackedFloat.round .binary64 .positive (n * 2 ^ k) (-k) = stored n := by
  have hlog := log2_le hn
  have hfull := log2_mantissa hpos hn
  have htarget : Format.binary64.targetExponent (totalExponent (n * 2 ^ k) (-k)) = n.log2 - 52 := by
    simp only [Format.targetExponent, totalExponent, log2_mul_two_pow hpos, Format.mantissaBits,
      Format.minExponent]
    norm_num
    omega
  rw [stored_of_pos hpos]
  unfold UnpackedFloat.round decreaseExponent
  rw [htarget]
  dsimp only
  rcases Nat.le_total k (52 - n.log2) with hk | hk
  · -- The mantissa is short of bits, and gets more zeros.
    have hshift : (-(k : ℤ) - (n.log2 - 52)).toNat = 52 - n.log2 - k := by omega
    have hmantissa : (n * 2 ^ k) <<< (52 - n.log2 - k) = n * 2 ^ (52 - n.log2) * 2 ^ 0 := by
      rw [Nat.shiftLeft_eq, mul_assoc, ← pow_add, pow_zero, mul_one, Nat.add_sub_cancel' hk]
    have hexponent : -(k : ℤ) - ((52 - n.log2 - k : ℕ) : ℤ) = n.log2 - 52 := by omega
    rw [hshift, hmantissa, hexponent, roundWithAccuracy_eq _ hfull (by positivity) (by omega)]
    simp
  · -- The mantissa has all of its bits, and some zeros too many.
    have hshift : (-(k : ℤ) - (n.log2 - 52)).toNat = 0 := by omega
    have hmantissa : n * 2 ^ k = n * 2 ^ (52 - n.log2) * 2 ^ (k - (52 - n.log2)) := by
      rw [mul_assoc, ← pow_add, Nat.add_sub_cancel' hk]
    rw [hshift, Nat.shiftLeft_zero, hmantissa, Int.ofNat_zero, sub_zero,
      roundWithAccuracy_eq _ hfull (by positivity) (by omega)]
    congr 1
    omega

/-! ### Bits -/

/-- What stands in the exponent field of a float. -/
theorem biased_eq (e : ℤ) : e + Format.binary64.exponentBias + (52 : ℕ) = e + 1075 := by
  simp only [Format.exponentBias]
  norm_num
  omega

/-- The exponent field is the exponent, moved by 1075. -/
theorem toNat_exponent (he : e ≤ 971) :
    (BitVec.ofNat 11 (e + 1075).toNat).toNat = (e + 1075).toNat := by
  rw [BitVec.toNat_ofNat, Nat.mod_eq_of_lt (by omega)]

/-- The bits of a finite float: its exponent field is zero if its mantissa is not full. -/
theorem pack_finite {hm : 0 < m} (he : e ≤ 971) :
    UnpackedFloat.pack .binary64 (.finite sign m e hm) = packComponents .binary64 sign
      (if m.log2 = 52 then BitVec.ofNat 11 (e + 1075).toNat else 0#11) (BitVec.ofNat 52 m) := by
  have hfull : m.log2 + 1 = Format.binary64.mantissaBits ↔ m.log2 = 52 := Nat.succ_inj
  unfold UnpackedFloat.pack
  dsimp only
  rw [biased_eq, if_neg (show ¬2 ^ 11 ≤ (e + 1075).toNat + 1 by omega)]
  simp only [hfull]
  split <;> rfl

/-- There are no bits for an exponent that is too large. -/
theorem pack_of_large {hm : 0 < m} (he : 971 < e) :
    UnpackedFloat.pack .binary64 (.finite sign m e hm) = packedInfinity .binary64 sign := by
  unfold UnpackedFloat.pack
  dsimp only
  rw [biased_eq, if_pos (by omega)]

/-- A full mantissa with an exponent in range is read back from its bits. -/
theorem unpack_pack_finite (hm : m.log2 = 52) (hpos : 0 < m) (hlow : -1074 ≤ e) (hhigh : e ≤ 971) :
    (Float.Model.pack (.finite sign m e hpos)).unpack = .finite sign m e hpos := by
  have hexponent := toNat_exponent hhigh
  have hmantissa : (1#1 ++ BitVec.ofNat 52 m).toNat = m := by
    have hbits := (Nat.log2_eq_iff hpos.ne').mp hm
    rw [BitVec.toNat_append, ← Nat.shiftLeft_add_eq_or_of_lt (BitVec.isLt _), BitVec.toNat_ofNat,
      BitVec.toNat_ofNat, Nat.shiftLeft_eq]
    omega
  -- The exponent is neither that of an infinity nor that of the smallest floats.
  have hones : BitVec.ofNat 11 (e + 1075).toNat ≠ -1#11 := by
    intro h
    have hnat := congrArg BitVec.toNat h
    rw [hexponent, show (-1#11).toNat = 2047 by decide] at hnat
    omega
  have hzero : BitVec.ofNat 11 (e + 1075).toNat ≠ 0#11 := by
    intro h
    have hnat := congrArg BitVec.toNat h
    rw [hexponent, BitVec.toNat_zero] at hnat
    omega
  show UnpackedFloat.unpack .binary64 (UnpackedFloat.pack .binary64 (.finite sign m e hpos)) = _
  rw [pack_finite hhigh, if_pos hm]
  unfold UnpackedFloat.unpack
  simp only [unpackMantissa_packComponents, unpackExponent_packComponents,
    unpackSign_packComponents, Sign.ofBitVec_toBitVec, hones, hzero, ↓reduceIte, hexponent,
    hmantissa]
  congr 1
  simp only [Format.exponentBias]
  norm_num
  omega

/-- A whole number is read back from its bits. -/
theorem unpack_pack_stored (hn : n < 2 ^ 53) :
    (Float.Model.pack (stored n)).unpack = stored n := by
  rcases Nat.eq_zero_or_pos n with rfl | hpos
  · rfl
  · have hlog := log2_le hn
    rw [stored_of_pos hpos]
    exact unpack_pack_finite (log2_mantissa hpos hn) _ (by omega) (by omega)

/-! ### Addition and conversion -/

/-- With zeros behind it, the mantissa of a stored number is brought to any smaller exponent. -/
theorem decreaseExponent_stored (hn : n < 2 ^ 53) (hk : 52 - n.log2 ≤ k) :
    (decreaseExponent (n * 2 ^ (52 - n.log2)) (n.log2 - 52) (-k)).1 = n * 2 ^ k := by
  have hlog := log2_le hn
  have hshift : ((n.log2 : ℤ) - 52 - -(k : ℤ)).toNat = k - (52 - n.log2) := by omega
  unfold decreaseExponent
  dsimp only
  rw [hshift, Nat.shiftLeft_eq, mul_assoc, ← pow_add, Nat.add_sub_cancel' hk]

/-- **Whole numbers are added exactly** as long as the sum is below `2 ^ 53`. -/
theorem add_stored {a b : ℕ} (hab : a + b < 2 ^ 53) :
    UnpackedFloat.add .binary64 (stored a) (stored b) = stored (a + b) := by
  rcases Nat.eq_zero_or_pos a with rfl | ha
  · rw [Nat.zero_add, stored_zero]
    rcases Nat.eq_zero_or_pos b with rfl | hb
    · rfl
    · rw [stored_of_pos hb]
      rfl
  rcases Nat.eq_zero_or_pos b with rfl | hb
  · rw [Nat.add_zero, stored_zero, stored_of_pos ha]
    rfl
  -- Both are brought to the smaller exponent, where the sum is one of whole numbers.
  have hloga := log2_le (show a < 2 ^ 53 by omega)
  have hlogb := log2_le (show b < 2 ^ 53 by omega)
  obtain ⟨k, hk, hka, hkb⟩ : ∃ k : ℕ, min ((a.log2 : ℤ) - 52) (b.log2 - 52) = -k
      ∧ 52 - a.log2 ≤ k ∧ 52 - b.log2 ≤ k :=
    ⟨max (52 - a.log2) (52 - b.log2), by omega, by omega, by omega⟩
  have hsum : Sign.positive.apply (a * 2 ^ k : ℕ) + Sign.positive.apply (b * 2 ^ k : ℕ)
      = ((a + b) * 2 ^ k : ℕ) := by
    rw [add_mul]
    exact (Nat.cast_add _ _).symm
  have hpositive : compare (((a + b) * 2 ^ k : ℕ) : ℤ) 0 = .gt := by
    rw [compare_gt_iff_gt]
    positivity
  rw [stored_of_pos ha, stored_of_pos hb, ← round_eq_stored (by omega) hab k]
  unfold UnpackedFloat.add
  dsimp only
  rw [hk, decreaseExponent_stored (by omega) hka, decreaseExponent_stored (by omega) hkb, hsum]
  unfold UnpackedFloat.normalize
  rw [hpositive]
  rfl

/-- A whole number is turned back into an integer exactly. -/
theorem toInt_stored (hn : n < 2 ^ 53) (low high : ℤ) : (stored n).toInt low high = n := by
  rcases Nat.eq_zero_or_pos n with rfl | hpos
  · rfl
  · have hlog := log2_le hn
    have hshift : ((n.log2 : ℤ) - 52 - 0).toNat = 0 := by omega
    have hexact := shiftToExponent_eq n (52 - n.log2) (n.log2 - 52)
    rw [show ((n.log2 : ℤ) - 52 + (52 - n.log2 : ℕ)) = 0 by omega] at hexact
    rw [stored_of_pos hpos]
    unfold UnpackedFloat.toInt roundToInt decreaseExponent
    dsimp only
    rw [hshift, Nat.shiftLeft_zero, Int.ofNat_zero, sub_zero, hexact]
    rfl

/-- The float `x` is the whole number `n`. -/
def IsWhole (x : Float) (n : ℕ) : Prop := x.toModel.unpack = stored n

/-- The float `0` is the number 0. -/
theorem isWhole_zero : IsWhole 0 0 := by rfl

/-- The float `1` is the number 1. -/
theorem isWhole_one : IsWhole 1 1 := by rfl

variable {x y : Float}

/-- **Addition is exact** as long as the sum stays below `2 ^ 53`. -/
theorem IsWhole.add {a b : ℕ} (hx : IsWhole x a) (hy : IsWhole y b) (hab : a + b < 2 ^ 53) :
    IsWhole (x + y) (a + b) := by
  show (Float.Model.pack (x.toModel.unpack.add .binary64 y.toModel.unpack)).unpack = _
  rw [hx, hy, add_stored hab, unpack_pack_stored hab]

/-- **Conversion is exact** below `2 ^ 53`. -/
theorem IsWhole.toNat_toUInt64 (h : IsWhole x n) (hn : n < 2 ^ 53) : x.toUInt64.toNat = n := by
  have hsize : n < UInt64.size := by
    rw [show UInt64.size = 2 ^ 64 from rfl]
    omega
  show (UInt64.ofNatClamp (x.toModel.unpack.toInt 0 (UInt64.size - 1)).toNat).toNat = n
  rw [h, toInt_stored hn, Int.toNat_natCast, UInt64.toNat_ofNatClamp_of_lt hsize]

end MeshExpr.FloatWhole
