import MeshExpr.Decimal.Stepwise
import MeshExpr.Proofs.Number.Form

namespace MeshExpr.FloatFinite

open Float.Model UnpackedFloat FloatWhole FloatValue FloatForm

/-!
# Decimals are read as finite floats

A coefficient of sixty-four bits is far below the largest float, and every power of ten that divides
it is at least one. So no step of reading can leave the finite floats, except for the product, which
is checked. The bounds on exponents are as crude as they can be: only their size matters.

* `Below b r` — a float that has been taken apart is finite, and its exponent is at most `b`.
* `below_roundWithAccuracy` — what rounding does to an exponent.
* `below_div` — a quotient by a float that is not small.
* `isFinite_of_stepwise?` — **a decimal is read as a finite float, if it is read at all**.
-/

/-- A float that has been taken apart is finite, and its exponent is at most `b`. -/
def Below (b : ℤ) : UnpackedFloat → Prop
  | .zero _ => True
  | .finite _ _ e _ => e ≤ b
  | .infinity _ | .notANumber => False

variable {x y : Float} {sign : Sign} {m n : ℕ} {b e : ℤ} {r : UnpackedFloat}

/-- A larger bound is a bound as well. -/
theorem Below.mono {b' : ℤ} (h : Below b r) (hb : b ≤ b') : Below b' r := by
  cases r with
  | zero _ => trivial
  | finite _ _ e _ => exact le_trans h hb
  | infinity _ | notANumber => exact h

/-- A float with a bound on its exponent is finite. -/
theorem isFinite_of_below (h : Below b x.toModel.unpack) : x.isFinite = true := by
  show x.toModel.unpack.isFinite = true
  cases hr : x.toModel.unpack with
  | zero _ | finite _ _ _ _ => rfl
  | infinity _ | notANumber =>
    rw [hr] at h
    exact h.elim

/-! ### Packing -/

/-- The exponent field decides whether a float is finite, and bounds its exponent. -/
theorem below_unpack {exponent : BitVec 11} (mantissa : BitVec 52)
    (hexponent : exponent.toNat < 2047)
    (hb : (exponent.toNat : ℤ) - 1075 ≤ b) (hlow : -1074 ≤ b) :
    Below b (UnpackedFloat.unpack .binary64
      (packComponents .binary64 sign exponent mantissa)) := by
  have hones : exponent ≠ -1#11 := by
    rintro rfl
    exact absurd hexponent (by decide)
  unfold UnpackedFloat.unpack
  simp only [unpackMantissa_packComponents, unpackExponent_packComponents,
    unpackSign_packComponents]
  rw [if_neg hones]
  split
  · -- The smallest floats have the exponent of the next larger ones.
    rename_i hzero
    split
    · trivial
    · subst hzero
      show ((0#11).toNat : ℤ) - 1075 + 1 ≤ b
      simpa using hlow
  · exact hb

/-- Packing a finite float with an exponent in range keeps it finite. -/
theorem below_pack (hr : Below b r) (hlow : -1074 ≤ b) (hhigh : b ≤ 971) :
    Below b (Float.Model.pack r).unpack := by
  show Below b (UnpackedFloat.unpack .binary64 (UnpackedFloat.pack .binary64 r))
  cases r with
  | zero sign => cases sign <;> trivial
  | infinity _ | notANumber => exact hr.elim
  | finite sign m e hm =>
    change e ≤ b at hr
    have hfield := toNat_exponent (hr.trans hhigh)
    rw [pack_finite (hr.trans hhigh)]
    split
    · apply below_unpack _ _ _ hlow <;> rw [hfield] <;> omega
    · exact below_unpack _ (by decide) (by rw [BitVec.toNat_zero]; omega) hlow

/-! ### Rounding -/

/-- A shift to the right divides the mantissa, whatever bits are remembered of the rest. -/
theorem mantissa_shiftRight (m : ExtendedMantissa) (k : ℕ) :
    (m >>> k).mantissa = m.mantissa / 2 ^ k := by
  induction k with
  | zero => exact (Nat.div_one _).symm
  | succ k ih =>
    show (m >>> k).mantissa / 2 = _
    rw [ih, Nat.div_div_eq_div_mul, pow_succ]

/-- The bits that are remembered do not change the mantissa. -/
theorem mantissa_ofMantissaAndAccuracy (m : ℕ) (accuracy : Accuracy) :
    (ExtendedMantissa.ofMantissaAndAccuracy m accuracy).mantissa = m := by
  unfold ExtendedMantissa.ofMantissaAndAccuracy
  split <;> rfl

/-- Rounding adds at most one to a mantissa. -/
theorem roundedMantissa_le (m : ExtendedMantissa) : m.roundedMantissa ≤ m.mantissa + 1 := by
  unfold ExtendedMantissa.roundedMantissa Accuracy.roundToNearestEven
  split <;> omega

/-- The shift before rounding makes no mantissa larger, and moves an exponent by no more than the
    mantissa has bits. -/
theorem shiftToTargetExponent_bounds (m : ℕ) (e : ℤ) (accuracy : Accuracy) :
    (shiftToTargetExponent .binary64 m e accuracy).1.mantissa ≤ m
      ∧ (shiftToTargetExponent .binary64 m e accuracy).2
        ≤ max (max e (m.log2 + e - 52)) (-1074) := by
  unfold shiftToTargetExponent shiftToExponent
  refine ⟨?_, ?_⟩
  · dsimp only
    rw [mantissa_shiftRight, mantissa_ofMantissaAndAccuracy]
    exact Nat.div_le_self _ _
  · simp only [Format.targetExponent, totalExponent, Format.mantissaBits, Format.minExponent]
    norm_num
    omega

/-- A number below a power of two has no more bits than its exponent. -/
theorem log2_le_of_lt {k : ℕ} (h : m < 2 ^ (k + 1)) : m.log2 ≤ k := by
  rcases Nat.eq_zero_or_pos m with rfl | hpos
  · simp
  · exact Nat.lt_succ_iff.mp ((Nat.log2_lt hpos.ne').mpr h)

/-- Rounding moves an exponent by no more than the mantissa has bits. -/
theorem below_roundWithAccuracy {accuracy : Accuracy} (hm : m < 2 ^ 160) (he : e ≤ b)
    (hb : -1074 ≤ b) :
    Below (b + 216) (roundWithAccuracy .binary64 sign m e accuracy) := by
  have hfirst := shiftToTargetExponent_bounds m e accuracy
  unfold roundWithAccuracy
  generalize shiftToTargetExponent .binary64 m e accuracy = first at hfirst
  obtain ⟨em, e₁⟩ := first
  dsimp only at hfirst ⊢
  have hrounded := roundedMantissa_le em
  have hsecond := shiftToTargetExponent_bounds em.roundedMantissa e₁ .exact
  have hlog : m.log2 ≤ 160 := log2_le_of_lt (by omega)
  have hlog' : em.roundedMantissa.log2 ≤ 160 := log2_le_of_lt (by omega)
  split
  · trivial
  · show (shiftToTargetExponent .binary64 em.roundedMantissa e₁ .exact).2 ≤ b + 216
    omega

/-! ### Quotients -/

/-- The mantissa of a float has at most 53 bits. -/
theorem mantissa_lt {hm : 0 < m} (h : x.toModel.unpack = .finite sign m e hm) : m < 2 ^ 53 := by
  have hform := canonical_unpack x
  rw [h] at hform
  exact hform.1

/-- A float that has been taken apart is a number and not far below one. -/
def notSmall : UnpackedFloat → Bool
  | .finite _ _ e _ => -53 ≤ e
  | .infinity _ => true
  | .zero _ | .notANumber => false

/-- The dividend gets only the bits that the quotient needs, so the quotient has not too many. -/
theorem below_div_finite {sign₁ sign₂ : Sign} {m₁ m₂ : ℕ} {e₁ e₂ : ℤ} {hm₁ : 0 < m₁} {hm₂ : 0 < m₂}
    (hlt₁ : m₁ < 2 ^ 53) (hlt₂ : m₂ < 2 ^ 53) (he₁ : e₁ ≤ b) (he₂ : -53 ≤ e₂) (hlow : -1074 ≤ b)
    (hhigh : b ≤ 702) : Below (b + 269)
      (UnpackedFloat.div .binary64 (.finite sign₁ m₁ e₁ hm₁) (.finite sign₂ m₂ e₂ hm₂)) := by
  have hlog₂ : m₂.log2 ≤ 52 := log2_le_of_lt hlt₂
  unfold UnpackedFloat.div divCore
  dsimp only
  -- The dividend is shifted by at most as many bits as both mantissas have together.
  have htarget : e₁ - e₂ - min (e₁ - e₂)
      (Format.binary64.targetExponent (totalExponent m₁ e₁ - totalExponent m₂ e₂)) ≤ 105 := by
    simp only [Format.targetExponent, totalExponent, Format.mantissaBits, Format.minExponent]
    norm_num
    omega
  generalize htarget' : min (e₁ - e₂)
    (Format.binary64.targetExponent (totalExponent m₁ e₁ - totalExponent m₂ e₂)) = target at htarget
  have hle : target ≤ e₁ - e₂ := htarget' ▸ min_le_left _ _
  have hquotient : m₁ <<< (e₁ - e₂ - target).toNat / m₂ < 2 ^ 160 := by
    calc m₁ <<< (e₁ - e₂ - target).toNat / m₂
        ≤ m₁ <<< (e₁ - e₂ - target).toNat := Nat.div_le_self _ _
      _ = m₁ * 2 ^ (e₁ - e₂ - target).toNat := Nat.shiftLeft_eq _ _
      _ ≤ m₁ * 2 ^ 105 := Nat.mul_le_mul_left _ (Nat.pow_le_pow_right (by decide) (by omega))
      _ < 2 ^ 160 := by omega
  exact (below_roundWithAccuracy (b := b + 53) hquotient (by omega) (by omega)).mono (by omega)

/-- A quotient by a float that is not small. -/
theorem below_div (hx : Below b x.toModel.unpack) (hy : notSmall y.toModel.unpack = true)
    (hlow : -1074 ≤ b) (hhigh : b ≤ 702) : Below (b + 269) (x / y).toModel.unpack := by
  show Below (b + 269)
    (Float.Model.pack (x.toModel.unpack.div .binary64 y.toModel.unpack)).unpack
  refine below_pack ?_ (by omega) (by omega)
  cases hdivisor : y.toModel.unpack with
  | zero _ | notANumber =>
    rw [hdivisor] at hy
    cases hy
  -- A quotient by an infinity is zero.
  | infinity _ =>
    cases hdividend : x.toModel.unpack with
    | zero _ | finite _ _ _ _ => trivial
    | infinity _ | notANumber =>
      rw [hdividend] at hx
      exact hx.elim
  | finite sign₂ m₂ e₂ hm₂ =>
    rw [hdivisor] at hy
    cases hdividend : x.toModel.unpack with
    | zero _ => trivial
    | infinity _ | notANumber =>
      rw [hdividend] at hx
      exact hx.elim
    | finite sign₁ m₁ e₁ hm₁ =>
      rw [hdividend] at hx
      exact below_div_finite (mantissa_lt hdividend) (mantissa_lt hdivisor) hx
        (of_decide_eq_true hy) hlow hhigh

/-! ### Powers of ten -/

/-- A mantissa with too many bits loses just these. -/
theorem shiftToTargetExponent_of_full (accuracy : Accuracy) (hm : 52 ≤ m.log2) (he : -1074 ≤ e) :
    (shiftToTargetExponent .binary64 m e accuracy).1.mantissa = m / 2 ^ (m.log2 - 52)
      ∧ e ≤ (shiftToTargetExponent .binary64 m e accuracy).2 := by
  have hshift : (Format.binary64.targetExponent (totalExponent m e) - e).toNat = m.log2 - 52 := by
    simp only [Format.targetExponent, totalExponent, Format.mantissaBits, Format.minExponent]
    norm_num
    omega
  unfold shiftToTargetExponent shiftToExponent
  dsimp only
  rw [hshift, mantissa_shiftRight, mantissa_ofMantissaAndAccuracy]
  exact ⟨rfl, by omega⟩

/-- A mantissa that is cut to 53 bits has all of them. -/
theorem log2_div_two_pow (hm : 52 ≤ m.log2) : (m / 2 ^ (m.log2 - 52)).log2 = 52 := by
  have hne : m ≠ 0 := by
    rintro rfl
    exact absurd hm (by decide)
  have hbits := (Nat.log2_eq_iff hne).mp rfl
  have hsplit : m.log2 = m.log2 - 52 + 52 := by omega
  have hpow : 2 ^ m.log2 = 2 ^ (m.log2 - 52) * 2 ^ 52 := by
    conv_lhs => rw [hsplit]
    exact pow_add _ _ _
  -- The number is cut by as many bits as it has beyond 53, and its leading bit stays.
  have hle : 2 ^ 52 ≤ m / 2 ^ (m.log2 - 52) := by
    rw [Nat.le_div_iff_mul_le (Nat.two_pow_pos _), mul_comm, ← hpow]
    exact hbits.1
  have hlt : m / 2 ^ (m.log2 - 52) < 2 ^ 53 := by
    rw [Nat.div_lt_iff_lt_mul (Nat.two_pow_pos _)]
    calc m < 2 ^ (m.log2 + 1) := hbits.2
      _ = 2 ^ 53 * 2 ^ (m.log2 - 52) := by
        rw [pow_succ, hpow]
        ring
  exact (Nat.log2_eq_iff (by omega)).mpr ⟨hle, hlt⟩

/-- Rounding takes nothing from a mantissa. -/
theorem le_roundedMantissa (m : ExtendedMantissa) : m.mantissa ≤ m.roundedMantissa := by
  unfold ExtendedMantissa.roundedMantissa Accuracy.roundToNearestEven
  split <;> omega

/-- Rounding a number with too many bits gives a full mantissa and does not lower the exponent. -/
theorem roundWithAccuracy_of_full (sign : Sign) (accuracy : Accuracy) (hm : 52 ≤ m.log2)
    (he : -1074 ≤ e) :
    ∃ k f, ∃ hk : 0 < k, roundWithAccuracy .binary64 sign m e accuracy = .finite sign k f hk
      ∧ k.log2 = 52 ∧ e ≤ f := by
  obtain ⟨hmantissa, hexponent⟩ := shiftToTargetExponent_of_full accuracy hm he
  unfold roundWithAccuracy
  generalize shiftToTargetExponent .binary64 m e accuracy = first at hmantissa hexponent
  obtain ⟨em, e₁⟩ := first
  dsimp only at hmantissa hexponent ⊢
  have hlog : em.mantissa.log2 = 52 := hmantissa ▸ log2_div_two_pow hm
  -- Rounding up may give one bit more, so the mantissa is cut once again.
  have hrounded : 52 ≤ em.roundedMantissa.log2 := by
    have hle := le_roundedMantissa em
    have hne : em.mantissa ≠ 0 := fun h => absurd (h ▸ hlog) (by decide)
    have hbits : 2 ^ 52 ≤ em.mantissa := (Nat.le_log2 hne).mp hlog.ge
    exact (Nat.le_log2 (by omega)).mpr (hbits.trans hle)
  obtain ⟨hmantissa', hexponent'⟩ :=
    shiftToTargetExponent_of_full .exact hrounded (he.trans hexponent)
  have hlog' := log2_div_two_pow hrounded
  rw [← hmantissa'] at hlog'
  have hne : (shiftToTargetExponent .binary64 em.roundedMantissa e₁ .exact).1.mantissa ≠ 0 := by
    intro h
    rw [h] at hlog'
    exact absurd hlog' (by decide)
  rw [dif_neg hne]
  exact ⟨_, _, Nat.pos_of_ne_zero hne, rfl, hlog', hexponent.trans hexponent'⟩

/-- A full mantissa stays what it is when it is packed, or becomes an infinity. -/
theorem notSmall_pack {hm : 0 < m} (hlog : m.log2 = 52) (he : -53 ≤ e) :
    notSmall (Float.Model.pack (.finite sign m e hm)).unpack = true := by
  by_cases hhigh : e ≤ 971
  · rw [unpack_pack_finite hlog hm (by omega) hhigh]
    exact decide_eq_true he
  · show notSmall (UnpackedFloat.unpack .binary64
      (UnpackedFloat.pack .binary64 (.finite sign m e hm))) = true
    rw [pack_of_large (by omega)]
    cases sign <;> decide

/-- A decimal without a fraction is rounded once. -/
theorem ofScientific_eq (hn : 0 < n) (k : ℕ) (hk : k ≤ 2048) :
    UnpackedFloat.ofScientific .binary64 n k
      = roundWithAccuracy .binary64 .positive (n * 2 ^ 53 * 10 ^ k) (-53) .exact := by
  unfold UnpackedFloat.ofScientific
  rw [dif_neg hn.ne', if_neg (by norm_num; omega), if_neg (by norm_num; omega),
    if_pos (by omega)]
  unfold UnpackedFloat.mul
  dsimp only
  rw [Nat.shiftLeft_eq, Int.toNat_natCast]
  rfl

/-- Outside the short way, a decimal is rounded from its exact value. -/
theorem unpack_ofScientific (h : ¬(n < 2 ^ 53 ∧ m ≤ 22)) :
    (Float.ofScientific n false m).toModel.unpack
      = (Float.Model.pack (UnpackedFloat.ofScientific .binary64 n m)).unpack := by
  unfold Float.ofScientific
  rw [dif_neg h]
  rfl

/-- A power of ten is not small. -/
theorem notSmall_tenTo (k : ℕ) (hk : k ≤ 2048) :
    notSmall (Decimal.tenTo k).toModel.unpack = true := by
  have htenTo : Decimal.tenTo k = Float.ofScientific 1 false k := by
    unfold Decimal.tenTo Decimal.toFloat
    dsimp only
    rw [decide_eq_false (by omega), Int.natAbs_natCast]
    rfl
  by_cases hsmall : k ≤ 22
  · -- The small powers are exact, and looked at one by one.
    have hfast : ∀ k ≤ 22, notSmall (Decimal.tenTo k).toModel.unpack = true := by decide +kernel
    exact hfast k hsmall
  · have hbits : 52 ≤ (1 * 2 ^ 53 * 10 ^ k).log2 := by
      rw [Nat.le_log2 (by positivity)]
      calc 2 ^ 52 ≤ 1 * 2 ^ 53 * 1 := by decide
        _ ≤ 1 * 2 ^ 53 * 10 ^ k := Nat.mul_le_mul_left _ (Nat.one_le_pow _ _ (by decide))
    obtain ⟨m, e, hm, hround, hlog, he⟩ := roundWithAccuracy_of_full .positive .exact hbits
      (show -1074 ≤ (-53 : ℤ) by decide)
    rw [htenTo, unpack_ofScientific fun h => hsmall h.2, ofScientific_eq (by decide) k hk, hround]
    exact notSmall_pack hlog he

/-! ### Decimals -/

/-- A word as a float. -/
theorem below_ofNat (hn : n < Decimal.wordCount) : Below 216 (Float.ofNat n).toModel.unpack := by
  unfold Decimal.wordCount at hn
  by_cases hsmall : n < 2 ^ 53
  · have hlog := log2_le hsmall
    rw [show (Float.ofNat n).toModel.unpack = stored n from isWhole_ofNat hsmall]
    unfold stored
    split
    · show (n.log2 : ℤ) - 52 ≤ 216
      omega
    · trivial
  · -- A larger word is rounded once, as a decimal without a fraction.
    have hmantissa : n * 2 ^ 53 * 10 ^ 0 < 2 ^ 160 := by omega
    have hround : Below (0 + 216) (roundWithAccuracy .binary64 .positive (n * 2 ^ 53 * 10 ^ 0) (-53)
      .exact) := below_roundWithAccuracy hmantissa (by decide) (by decide)
    rw [← ofScientific_eq (by omega) 0 (by decide)] at hround
    show Below 216 (Float.ofScientific n false 0).toModel.unpack
    rw [unpack_ofScientific fun h => hsmall h.1]
    exact below_pack hround (by decide) (by decide)

/-- An exponent field that is not all ones is at most 2046. -/
theorem toNat_le_of_ne_ones {v : BitVec 11} (h : v ≠ -1#11) : v.toNat ≤ 2046 := by
  have hne : v.toNat ≠ 2047 := fun hv => h (BitVec.eq_of_toNat_eq hv)
  omega

/-- The exponent of a finite float is at most 971. -/
theorem below_of_isFinite (h : x.isFinite = true) : Below 971 x.toModel.unpack := by
  change (UnpackedFloat.unpack .binary64 x.toBits.toBitVec).isFinite = true at h
  show Below 971 (UnpackedFloat.unpack .binary64 x.toBits.toBitVec)
  unfold UnpackedFloat.unpack at h ⊢
  dsimp only at h ⊢
  split at h
  · split at h <;> cases h
  · rename_i hones
    -- The field of a finite float is not all ones.
    have hlt := toNat_le_of_ne_ones hones
    have hbias : (Format.binary64.exponentBias + Format.binary64.mantissaBitsWithoutImplicit : ℤ)
        = 1075 := rfl
    rw [if_neg hones, hbias]
    split
    · rename_i hzero
      split
      · trivial
      · rw [hzero]
        show ((0#11).toNat : ℤ) - 1075 + 1 ≤ 971
        decide
    · show ((@unpackExponent .binary64 x.toBits.toBitVec).toNat : ℤ) - 1075 ≤ 971
      omega

/-- The negative of a finite float is finite. -/
theorem isFinite_neg (h : x.isFinite = true) : (-x).isFinite = true := by
  have hbelow := below_of_isFinite h
  have hneg : Below 971 (Float.Model.pack x.toModel.unpack.neg).unpack := by
    refine below_pack ?_ (by decide) le_rfl
    cases hx : x.toModel.unpack <;> rw [hx] at hbelow <;> exact hbelow
  exact isFinite_of_below hneg

/-- Dividing a word by a power of ten. -/
theorem isFinite_divideByTenTo (hn : n < Decimal.wordCount) (k : ℕ) :
    (Decimal.divideByTenTo (Float.ofNat n) k).isFinite = true := by
  have hword := below_ofNat hn
  unfold Decimal.divideByTenTo
  split
  · rename_i hk
    unfold Decimal.maxPower at hk
    exact isFinite_of_below (below_div hword (notSmall_tenTo k (by omega)) (by decide) (by decide))
  split
  · rename_i hk hk'
    unfold Decimal.maxPower at hk' ⊢
    have hfirst := below_div hword (notSmall_tenTo 308 (by decide)) (by decide) (by decide)
    exact isFinite_of_below
      (below_div hfirst (notSmall_tenTo (k - 308) (by omega)) (by decide) (by decide))
  · rfl

/-- **A decimal is read as a finite float, if it is read at all.** -/
theorem isFinite_of_stepwise? {d : Decimal} (hd : d.coefficient < Decimal.wordCount)
    (h : d.stepwise? = some x) : x.isFinite = true := by
  unfold Decimal.stepwise? at h
  dsimp only at h
  split at h
  · obtain rfl := Option.some.inj h
    exact isFinite_divideByTenTo hd _
  · split at h
    · obtain rfl := Option.some.inj h
      rfl
    · split at h
      · rename_i hproduct
        obtain rfl := Option.some.inj h
        exact hproduct.2
      · cases h

end MeshExpr.FloatFinite
