import MeshExpr.Number
import MeshExpr.Proofs.Number.Whole

namespace MeshExpr.FloatValue

open Float.Model UnpackedFloat FloatWhole

/-!
# The value of a float

A finite float is a rational number: its mantissa times a power of two, with its sign. The value is
read off the bits, where floats are taken apart by their model, so both views are tied together
here. An integer below `2 ^ 53` becomes the float of the same value, and nothing is rounded.

* `value` — the rational number that a finite float is.
* `value_of_finite` and `value_of_zero` — the value of a float that has been taken apart.
* `isWhole_ofNat` — a natural number below `2 ^ 53` as a float.
* `isFinite_ofInt`, `value_ofInt` and `isNegative_ofInt` — **integers become floats without loss**.
* `Number.ofInt?_eq_some_iff` — the integers that thirty-two bits hold.
* `towardZero` — integer parts; `truncate_eq` and `inBounds_iff` say what exact arithmetic on the
  bits computes.
-/

/-- The value of a finite float. -/
def value (x : Float) : ℚ := Decimal.signedNumerator x / (Decimal.fractionOf x).denominator

variable {x : Float} {sign : Sign} {m n : ℕ} {e : ℤ}

/-! ### The fields of the bits -/

/-- The mantissa field is the one that decimals are computed from. -/
theorem toNat_unpackMantissa (x : Float) :
    (@unpackMantissa .binary64 x.toBits.toBitVec).toNat
      = x.toBits.toNat % Decimal.hiddenBit := by
  rw [unpackMantissa_def, BitVec.extractLsb'_toNat]
  simp [Decimal.hiddenBit]

/-- The exponent field is the one that decimals are computed from. -/
theorem toNat_unpackExponent (x : Float) :
    (@unpackExponent .binary64 x.toBits.toBitVec).toNat
      = x.toBits.toNat / Decimal.hiddenBit % 2048 := by
  rw [unpackExponent_def, BitVec.extractLsb'_toNat]
  simp [Decimal.hiddenBit, Nat.shiftRight_eq_div_pow]

/-- The sign of a float. -/
def signOf (x : Float) : Sign :=
  Sign.ofBitVec (@unpackSign .binary64 x.toBits.toBitVec)

/-- A float counts as negative for decimals if its sign is. -/
theorem isNegative_iff (x : Float) : Decimal.isNegative x = true ↔ signOf x = .negative := by
  -- The sign is the topmost bit.
  have hbit : (@unpackSign .binary64 x.toBits.toBitVec).toNat
      = (x.toBits >>> 63).toNat := by
    have hlt := x.toBits.toNat_lt
    rw [unpackSign_def, BitVec.extractLsb'_toNat, UInt64.toNat_shiftRight]
    simp [Nat.shiftRight_eq_div_pow]
    omega
  have hlt : (x.toBits >>> 63).toNat < 2 := hbit ▸ BitVec.isLt _
  have hnegative : Decimal.isNegative x = true ↔ (x.toBits >>> 63).toNat = 1 := by
    unfold Decimal.isNegative
    rw [decide_eq_true_iff, ← UInt64.toNat_inj]
    rfl
  rw [hnegative]
  unfold signOf Sign.ofBitVec
  split
  · rename_i hzero
    rw [← hbit, hzero]
    simp
  · rename_i hzero
    have hne : (x.toBits >>> 63).toNat ≠ 0 := fun h =>
      hzero (BitVec.eq_of_toNat_eq (hbit.trans h))
    exact iff_of_true (by omega) rfl

/-- The value of a float is its fraction with its sign. -/
theorem value_eq (x : Float) : value x
    = (signOf x).apply 1
      * ((Decimal.fractionOf x).numerator / 2 ^ (Decimal.fractionOf x).shift) := by
  unfold value Decimal.signedNumerator Decimal.Fraction.denominator
  cases hsign : signOf x with
  | negative =>
    rw [if_pos ((isNegative_iff x).mpr hsign)]
    simp [Sign.apply, neg_div]
  | positive =>
    rw [if_neg fun h => Sign.noConfusion (hsign.symm.trans ((isNegative_iff x).mp h))]
    simp [Sign.apply]

/-- The size of a float: the smallest floats have no hidden bit. -/
theorem size_eq (x : Float) :
    ((Decimal.fractionOf x).numerator : ℚ) / 2 ^ (Decimal.fractionOf x).shift
      = if x.toBits.toNat / Decimal.hiddenBit % 2048 = 0
        then ((x.toBits.toNat % Decimal.hiddenBit : ℕ) : ℚ) * 2 ^ (-1074 : ℤ)
        else ((Decimal.hiddenBit + x.toBits.toNat % Decimal.hiddenBit : ℕ) : ℚ)
          * 2 ^ ((x.toBits.toNat / Decimal.hiddenBit % 2048 : ℕ) - 1075 : ℤ) := by
  unfold Decimal.fractionOf
  dsimp only
  generalize x.toBits.toNat / Decimal.hiddenBit % 2048 = biased
  generalize Decimal.hiddenBit + x.toBits.toNat % Decimal.hiddenBit = full
  split
  · rw [div_eq_mul_inv, ← zpow_natCast, ← zpow_neg]
    rfl
  split
  · -- Below the exponent 1075 the fraction is shifted down, above it up.
    have hshift : (biased : ℤ) - 1075 = -((1075 - biased : ℕ) : ℤ) := by omega
    rw [hshift, zpow_neg, zpow_natCast, div_eq_mul_inv]
  · have hshift : (biased : ℤ) - 1075 = ((biased - 1075 : ℕ) : ℤ) := by omega
    rw [hshift, zpow_natCast, pow_zero, div_one, Nat.cast_mul,
      show Nat.pow 2 (biased - 1075) = 2 ^ (biased - 1075) from rfl, Nat.cast_pow, Nat.cast_ofNat]

/-! ### Floats that have been taken apart -/

/-- The value of a float with a mantissa is the mantissa times a power of two. -/
theorem value_of_finite {hm : 0 < m} (h : x.toModel.unpack = .finite sign m e hm) :
    value x = sign.apply 1 * ((m : ℚ) * 2 ^ e) := by
  have hmantissa := toNat_unpackMantissa x
  have hexponent := toNat_unpackExponent x
  change UnpackedFloat.unpack .binary64 x.toBits.toBitVec = _ at h
  rw [value_eq, size_eq]
  unfold UnpackedFloat.unpack at h
  dsimp only at h
  split at h
  · split at h <;> cases h
  split at h
  · rename_i hzero
    split at h
    · cases h
    · obtain ⟨rfl, rfl, rfl⟩ := UnpackedFloat.finite.inj h
      have hbiased : x.toBits.toNat / Decimal.hiddenBit % 2048 = 0 := by
        rw [← hexponent, hzero]
        rfl
      rw [if_pos hbiased, hmantissa, hzero]
      rfl
  · rename_i hzero
    obtain ⟨rfl, rfl, rfl⟩ := UnpackedFloat.finite.inj h
    have hbiased : x.toBits.toNat / Decimal.hiddenBit % 2048 ≠ 0 := by
      rw [← hexponent]
      exact fun h => hzero (BitVec.eq_of_toNat_eq h)
    -- The hidden bit is put in front of the mantissa field.
    have hfull : (1#1 ++ @unpackMantissa .binary64 x.toBits.toBitVec).toNat
        = Decimal.hiddenBit + x.toBits.toNat % Decimal.hiddenBit := by
      rw [BitVec.toNat_append, ← Nat.shiftLeft_add_eq_or_of_lt (BitVec.isLt _), hmantissa]
      rfl
    have hbias : (Format.binary64.exponentBias : ℤ) + Format.binary64.mantissaBitsWithoutImplicit
        = 1075 := rfl
    rw [if_neg hbiased, hfull, hexponent, hbias]
    rfl

/-- The value of either zero is zero. -/
theorem value_of_zero (h : x.toModel.unpack = .zero sign) : value x = 0 := by
  have hmantissa := toNat_unpackMantissa x
  have hexponent := toNat_unpackExponent x
  change UnpackedFloat.unpack .binary64 x.toBits.toBitVec = _ at h
  rw [value_eq, size_eq]
  unfold UnpackedFloat.unpack at h
  dsimp only at h
  split at h
  · split at h <;> cases h
  split at h
  · rename_i hzero
    split at h
    · rename_i hnone
      have hbiased : x.toBits.toNat / Decimal.hiddenBit % 2048 = 0 := by
        rw [← hexponent, hzero]
        rfl
      -- Both fields are zero.
      rw [if_pos hbiased, ← hmantissa, hnone]
      simp
    · cases h
  · cases h

/-- The value of `0` is zero. -/
theorem value_zero : value 0 = 0 := value_of_zero isWhole_zero

/-! ### Integers as floats -/

/-- A whole number is a finite float. -/
theorem isFinite_of_isWhole (h : IsWhole x n) : x.isFinite = true := by
  show x.toModel.unpack.isFinite = true
  rw [show x.toModel.unpack = stored n from h]
  unfold stored
  split <;> rfl

/-- A count below `2 ^ 53` is turned into the float that is that number. -/
theorem isWhole_toFloat (hn : n < 2 ^ 53) : IsWhole n.toUInt64.toFloat n := by
  have hword : n.toUInt64.toNat = n :=
    UInt64.toNat_ofNat_of_lt' (by rw [show UInt64.size = 2 ^ 64 from rfl]; omega)
  have hstored : UnpackedFloat.ofNat .binary64 n = stored n := by
    rcases Nat.eq_zero_or_pos n with rfl | hpos
    · rfl
    · have hround := round_eq_stored hpos hn 0
      have hpositive : compare (n : ℤ) 0 = .gt := by
        rw [compare_gt_iff_gt]
        omega
      unfold UnpackedFloat.ofNat UnpackedFloat.ofInt UnpackedFloat.normalize
      rw [hpositive]
      simpa using hround
  show (Float.Model.pack (UnpackedFloat.ofNat .binary64 n.toUInt64.toNat)).unpack = _
  rw [hword, hstored]
  exact unpack_pack_stored hn

/-- The float `1.0`. -/
theorem unpack_one : (Float.ofBits 0x3FF0000000000000).toModel.unpack
    = .finite .positive (2 ^ 52) (-52) (Nat.two_pow_pos 52) := by rfl

/-- Multiplying by one changes no stored number. -/
theorem mul_stored_one (hn : n < 2 ^ 53) : UnpackedFloat.mul .binary64 (stored n)
    (.finite .positive (2 ^ 52) (-52) (Nat.two_pow_pos 52)) = stored n := by
  rcases Nat.eq_zero_or_pos n with rfl | hpos
  · rfl
  · have hlog := log2_le hn
    rw [stored_of_pos hpos]
    show roundWithAccuracy .binary64 .positive (n * 2 ^ (52 - n.log2) * 2 ^ 52)
      (n.log2 - 52 + -52) .exact = _
    rw [roundWithAccuracy_eq .positive (log2_mantissa hpos hn) (by positivity) (by omega)]
    congr 1
    omega

/-- A natural number as a float: it is converted as a word and multiplied by one. -/
theorem isWhole_ofNat (hn : n < 2 ^ 53) : IsWhole (Float.ofNat n) n := by
  have hofNat : Float.ofNat n = n.toUInt64.toFloat * Float.ofBits 0x3FF0000000000000 := by
    show Float.ofScientific n false 0 = _
    unfold Float.ofScientific
    rw [dif_pos ⟨hn, by omega⟩]
    rfl
  have hword := isWhole_toFloat hn
  rw [hofNat]
  generalize n.toUInt64.toFloat = x at hword
  show (Float.Model.pack (x.toModel.unpack.mul .binary64
    (Float.ofBits 0x3FF0000000000000).toModel.unpack)).unpack = _
  rw [hword, unpack_one, mul_stored_one hn, unpack_pack_stored hn]

/-- The value of a whole number is that number. -/
theorem value_of_isWhole (h : IsWhole x n) (hn : n < 2 ^ 53) : value x = n := by
  rcases Nat.eq_zero_or_pos n with rfl | hpos
  · rw [value_of_zero h, Nat.cast_zero]
  · have hlog := log2_le hn
    have he : (n.log2 : ℤ) - 52 = -((52 - n.log2 : ℕ) : ℤ) := by omega
    rw [value_of_finite (h.trans (stored_of_pos hpos)), he, zpow_neg, zpow_natCast]
    simp [Sign.apply]

/-- The negative of a whole number, taken apart. -/
theorem unpack_neg (h : IsWhole x n) (hpos : 0 < n) (hn : n < 2 ^ 53) :
    x.neg.toModel.unpack = .finite .negative (n * 2 ^ (52 - n.log2)) (n.log2 - 52)
      (Nat.mul_pos hpos (Nat.two_pow_pos _)) := by
  have hlog := log2_le hn
  show (Float.Model.pack x.toModel.unpack.neg).unpack = _
  rw [h, stored_of_pos hpos]
  exact unpack_pack_finite (log2_mantissa hpos hn) _ (by omega) (by omega)

/-- The value of its negative is the negative number. -/
theorem value_neg (h : IsWhole x n) (hpos : 0 < n) (hn : n < 2 ^ 53) : value x.neg = -n := by
  have hlog := log2_le hn
  have he : (n.log2 : ℤ) - 52 = -((52 - n.log2 : ℕ) : ℤ) := by omega
  rw [value_of_finite (unpack_neg h hpos hn), he, zpow_neg, zpow_natCast]
  simp [Sign.apply]

/-- Integers of thirty-two bits are among those that a float holds. -/
theorem natAbs_toInt_lt (n : Int32) : n.toInt.natAbs < 2 ^ 53 := by
  have hlow := n.le_toInt
  have hhigh := n.toInt_lt
  omega

/-- An integer of at most 53 bits is turned into a finite float. -/
theorem isFinite_ofInt {n : ℤ} (hn : n.natAbs < 2 ^ 53) : (Float.ofInt n).isFinite = true := by
  cases n with
  | ofNat n =>
    have hwhole : IsWhole (Float.ofNat n) n := isWhole_ofNat hn
    exact isFinite_of_isWhole hwhole
  | negSucc n =>
    have hlt : n + 1 < 2 ^ 53 := hn
    show (Float.ofNat (n + 1)).neg.toModel.unpack.isFinite = true
    rw [unpack_neg (isWhole_ofNat hlt) (Nat.succ_pos n) hlt]
    rfl

/-- The sign of a float with a mantissa. -/
theorem signOf_of_finite {hm : 0 < m} (h : x.toModel.unpack = .finite sign m e hm) :
    signOf x = sign := by
  change UnpackedFloat.unpack .binary64 x.toBits.toBitVec = _ at h
  unfold UnpackedFloat.unpack at h
  dsimp only at h
  split at h
  · split at h <;> cases h
  split at h
  · split at h
    · cases h
    · exact (UnpackedFloat.finite.inj h).1
  · exact (UnpackedFloat.finite.inj h).1

/-- The sign of a zero. -/
theorem signOf_of_zero (h : x.toModel.unpack = .zero sign) : signOf x = sign := by
  change UnpackedFloat.unpack .binary64 x.toBits.toBitVec = _ at h
  unfold UnpackedFloat.unpack at h
  dsimp only at h
  split at h
  · split at h <;> cases h
  split at h
  · split at h
    · exact UnpackedFloat.zero.inj h
    · cases h
  · cases h

/-- **Integers become floats without loss**, as long as they have no more than 53 bits. -/
theorem value_ofInt {n : ℤ} (hn : n.natAbs < 2 ^ 53) : value (Float.ofInt n) = n := by
  cases n with
  | ofNat n => exact value_of_isWhole (isWhole_ofNat hn) hn
  | negSucc n =>
    have hlt : n + 1 < 2 ^ 53 := hn
    show value (Float.ofNat (n + 1)).neg = _
    rw [value_neg (isWhole_ofNat hlt) (Nat.succ_pos n) hlt, Int.cast_negSucc]

/-- Zero becomes the zero without a sign. -/
theorem isNegative_ofInt {n : ℤ} (hn : n.natAbs < 2 ^ 53) :
    Decimal.isNegative (Float.ofInt n) = true ↔ n < 0 := by
  rw [isNegative_iff]
  cases n with
  | ofNat n =>
    have hwhole : (Float.ofNat n).toModel.unpack = stored n := isWhole_ofNat hn
    have hsign : signOf (Float.ofNat n) = .positive := by
      -- An integer that is not negative has no sign, and zero has none either.
      rcases Nat.eq_zero_or_pos n with rfl | hpos
      · exact signOf_of_zero hwhole
      · exact signOf_of_finite (hwhole.trans (stored_of_pos hpos))
    show signOf (Float.ofNat n) = .negative ↔ _
    rw [hsign]
    exact iff_of_false Sign.noConfusion (by simp)
  | negSucc n =>
    have hlt : n + 1 < 2 ^ 53 := hn
    have hsign := signOf_of_finite (unpack_neg (isWhole_ofNat hlt) (Nat.succ_pos n) hlt)
    exact iff_of_true hsign (Int.negSucc_lt_zero n)

/-! ### Integer parts -/

/-- The integer next to a number on the side of zero. -/
def towardZero (q : ℚ) : ℤ := if q < 0 then ⌈q⌉ else ⌊q⌋

/-- An integer is its own integer part. -/
theorem towardZero_intCast (n : ℤ) : towardZero n = n := by
  unfold towardZero
  rw [Int.ceil_intCast, Int.floor_intCast, ite_self]

/-- The floor of a fraction is the quotient. -/
theorem floor_natCast_div (a b : ℕ) : ⌊(a : ℚ) / b⌋ = ((a / b : ℕ) : ℤ) := by
  rw [Rat.floor_natCast_div_natCast, Int.natCast_div]

/-- So is its integer part. -/
theorem towardZero_natCast_div (a b : ℕ) : towardZero (a / b) = ((a / b : ℕ) : ℤ) := by
  have hle : (0 : ℚ) ≤ a / b := by positivity
  unfold towardZero
  rw [if_neg (not_lt.mpr hle), floor_natCast_div]

/-- The integer part of a negative number is the negative integer part. -/
theorem towardZero_neg (q : ℚ) : towardZero (-q) = -towardZero q := by
  unfold towardZero
  rcases lt_trichotomy q 0 with hlt | rfl | hlt
  · rw [if_neg (by linarith), if_pos hlt, Int.floor_neg]
  · simp
  · rw [if_pos (by linarith), if_neg (by linarith), Int.ceil_neg]

/-- The quotient of integers that loses its fraction. -/
theorem towardZero_div (a b : ℤ) : towardZero (a / b) = a.tdiv b := by
  have hcases : ∀ n : ℤ, ∃ k : ℕ, n = k ∨ n = -k := fun n => ⟨n.natAbs, Int.natAbs_eq n⟩
  obtain ⟨m, rfl | rfl⟩ := hcases a <;> obtain ⟨n, rfl | rfl⟩ := hcases b <;>
    simp only [Int.cast_neg, Int.cast_natCast, neg_div, div_neg, neg_neg, towardZero_neg,
      towardZero_natCast_div, Int.neg_tdiv, Int.tdiv_neg, Int.ofNat_tdiv]

/-- An integer part keeps bounds on both sides of zero. -/
theorem towardZero_mem_bounds {q : ℚ} {low high : ℤ} (hlow : low ≤ q) (hhigh : q ≤ high)
    (hzero : low ≤ 0) (hzero' : 0 ≤ high) : low ≤ towardZero q ∧ towardZero q ≤ high := by
  unfold towardZero
  split
  · rename_i hneg
    refine ⟨?_, ?_⟩
    · have hle := hlow.trans (Int.le_ceil q)
      exact_mod_cast hle
    · have hle : ⌈q⌉ ≤ 0 := Int.ceil_le.mpr (by push_cast; linarith)
      omega
  · rename_i hneg
    refine ⟨?_, ?_⟩
    · have hle : 0 ≤ ⌊q⌋ := Int.le_floor.mpr (by push_cast; linarith)
      omega
    · have hle := (Int.floor_le q).trans hhigh
      exact_mod_cast hle

/-- The denominator of a float is a power of two, and so not zero. -/
theorem denominator_pos (x : Float) : (0 : ℚ) < (Decimal.fractionOf x).denominator := by
  show (0 : ℚ) < ((2 ^ (Decimal.fractionOf x).shift : ℕ) : ℚ)
  positivity

/-- The integer part of a float. -/
theorem truncate_eq (x : Float) : Decimal.truncate x = towardZero (value x) := by
  unfold Decimal.truncate value Decimal.signedNumerator
  dsimp only
  split
  · rw [Int.cast_neg, neg_div, towardZero_neg, Int.cast_natCast, towardZero_natCast_div]
  · rw [Int.cast_natCast, towardZero_natCast_div]

/-- The bounds of an integer parameter are bounds on the value of the float. -/
theorem inBounds_iff {low high : ℤ} :
    Decimal.inBounds low high x = true ↔ (low : ℚ) ≤ value x ∧ value x ≤ high := by
  have hpos := denominator_pos x
  unfold Decimal.inBounds value
  rw [Bool.and_eq_true, decide_eq_true_iff, decide_eq_true_iff, le_div_iff₀ hpos,
    div_le_iff₀ hpos]
  norm_cast

end MeshExpr.FloatValue

namespace MeshExpr.Number

/-- The integers that thirty-two bits hold. -/
theorem ofInt?_eq_some_iff {n : ℤ} {r : Int32} :
    ofInt? n = some r ↔ -2 ^ 31 ≤ n ∧ n ≤ 2 ^ 31 - 1 ∧ r.toInt = n := by
  unfold ofInt? minInt32 maxInt32
  constructor
  · intro h
    split at h
    · rename_i hn
      obtain rfl := Option.some.inj h
      exact ⟨hn.1, hn.2, Int32.toInt_ofInt_of_le hn.1 (by omega)⟩
    · cases h
  · rintro ⟨hlow, hhigh, hr⟩
    rw [if_pos ⟨hlow, hhigh⟩, ← hr, Int32.ofInt_toInt]

/-- An integer in its range is taken as it is. -/
theorem ofInt?_toInt (n : Int32) : ofInt? n.toInt = some n := by
  have hlow := n.le_toInt
  have hhigh := n.toInt_lt
  exact ofInt?_eq_some_iff.mpr ⟨hlow, by omega, rfl⟩

end MeshExpr.Number
