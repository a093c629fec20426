import MeshExpr.Proofs.Number.Finite

namespace MeshExpr.FloatSum

open Float.Model UnpackedFloat FloatWhole FloatValue FloatFinite FloatOrder FloatForm

/-!
# Sums and differences of floats

The smallest floats are equally spaced, down to zero. So a sum may be rounded, but it is rounded to
zero only if it is zero, and a difference vanishes only between floats of one value. Together with
the sign of a zero, which only zeros pass on, this is what sums in another order and ranges that are
very narrow need to know of rounding.

* `exists_round` — what is not zero is not rounded to zero.
* `add_cases` and `sub_cases` — **a sum is zero exactly if it is zero without rounding**, and so is
  a difference.
* `add_ne_neg_zero` — no sum is the zero with a sign, unless it starts from there.
* `isNaN_add` — **what is no number makes a sum no number**.
* `div_self_of_finite` — a number divided by itself is one.
-/

variable {x y : Float} {sign sign' : Sign} {m n : ℕ} {e f : ℤ}

/-! ### Rounding never gives zero -/

/-- The shift to the exponent of the format leaves a mantissa that fits and is not zero. -/
theorem shiftToTargetExponent_pos (accuracy : Accuracy) (hm : 0 < m) (he : -1074 ≤ e) :
    0 < (shiftToTargetExponent .binary64 m e accuracy).1.mantissa
      ∧ (shiftToTargetExponent .binary64 m e accuracy).1.mantissa < 2 ^ 53
      ∧ -1074 ≤ (shiftToTargetExponent .binary64 m e accuracy).2 := by
  by_cases hfull : 52 ≤ m.log2
  · -- A long mantissa is cut to 53 bits and keeps the leading one.
    obtain ⟨hmantissa, hexponent⟩ := shiftToTargetExponent_of_full accuracy hfull he
    have hlog := log2_div_two_pow hfull
    rw [← hmantissa] at hlog
    have hne : (shiftToTargetExponent .binary64 m e accuracy).1.mantissa ≠ 0 := by
      intro hzero
      rw [hzero] at hlog
      exact absurd hlog (by decide)
    have hlt := (Nat.log2_lt (k := 53) hne).mp (by omega)
    omega
  · -- A short mantissa loses no bits.
    have hshift : (Format.binary64.targetExponent (totalExponent m e) - e).toNat = 0 := by
      simp only [Format.targetExponent, totalExponent, Format.mantissaBits, Format.minExponent]
      norm_num
      omega
    have hlt := (Nat.log2_lt (k := 53) hm.ne').mp (by omega)
    unfold shiftToTargetExponent shiftToExponent
    dsimp only
    rw [hshift, mantissa_shiftRight, mantissa_ofMantissaAndAccuracy, pow_zero, Nat.div_one]
    exact ⟨hm, hlt, by omega⟩

/-- What is not zero is not rounded to zero, as long as it is a multiple of the smallest float. -/
theorem exists_roundWithAccuracy (sign : Sign) (accuracy : Accuracy) (hm : 0 < m) (he : -1074 ≤ e) :
    ∃ k f hk, roundWithAccuracy .binary64 sign m e accuracy = .finite sign k f hk
      ∧ k < 2 ^ 53 ∧ -1074 ≤ f := by
  obtain ⟨hpos, -, hexponent⟩ := shiftToTargetExponent_pos accuracy hm he
  unfold roundWithAccuracy
  generalize shiftToTargetExponent .binary64 m e accuracy = first at hpos hexponent
  obtain ⟨em, e₁⟩ := first
  dsimp only at hpos hexponent ⊢
  have hrounded : 0 < em.roundedMantissa := hpos.trans_le (le_roundedMantissa em)
  obtain ⟨hpos', hlt, hexponent'⟩ := shiftToTargetExponent_pos .exact hrounded hexponent
  rw [dif_neg hpos'.ne']
  exact ⟨_, _, hpos', rfl, hlt, hexponent'⟩

/-- Rounding a number that is not zero leaves one that is not zero. -/
theorem exists_round (sign : Sign) (hm : 0 < m) (he : -1074 ≤ e) :
    ∃ k f hk, UnpackedFloat.round .binary64 sign m e = .finite sign k f hk
      ∧ k < 2 ^ 53 ∧ -1074 ≤ f := by
  unfold UnpackedFloat.round decreaseExponent
  dsimp only
  apply exists_roundWithAccuracy
  · rw [Nat.shiftLeft_eq]
    positivity
  · simp only [Format.targetExponent, Format.mantissaBits, Format.minExponent]
    norm_num
    omega

/-- What becomes of a finite float when it is packed: it may be too large. -/
theorem unpack_pack_cases {hm : 0 < m} (hm' : m < 2 ^ 53) (he : -1074 ≤ e) :
    (Float.Model.pack (.finite sign m e hm)).unpack = .infinity sign
      ∨ ∃ k f hk, (Float.Model.pack (.finite sign m e hm)).unpack = .finite sign k f hk := by
  have hlog := log2_le hm'
  by_cases hlarge : e ≤ 971
  · right
    by_cases hfull : m.log2 = 52
    · exact ⟨m, e, hm, unpack_pack_finite hfull hm he hlarge⟩
    · -- The exponent field is zero, and the mantissa is not.
      have hbits : m < 2 ^ 52 := (Nat.log2_lt hm.ne').mp (by omega)
      have hfraction : (BitVec.ofNat 52 m).toNat = m := by
        rw [BitVec.toNat_ofNat, Nat.mod_eq_of_lt hbits]
      have hzero : BitVec.ofNat 52 m ≠ 0#52 := by
        intro h
        rw [h, BitVec.toNat_zero] at hfraction
        omega
      show ∃ k f hk, UnpackedFloat.unpack .binary64
        (UnpackedFloat.pack .binary64 (.finite sign m e hm)) = .finite sign k f hk
      rw [pack_finite hlarge, if_neg hfull]
      unfold UnpackedFloat.unpack
      simp only [unpackMantissa_packComponents, unpackExponent_packComponents,
        unpackSign_packComponents, Sign.ofBitVec_toBitVec]
      rw [if_neg (by decide), if_pos trivial, dif_neg hzero]
      exact ⟨_, _, hfraction.symm ▸ hm, rfl⟩
  · left
    show UnpackedFloat.unpack .binary64 (UnpackedFloat.pack .binary64 (.finite sign m e hm)) = _
    rw [pack_of_large (by omega)]
    cases sign <;> rfl

/-- A number that is not zero, taken apart. -/
def Apart : UnpackedFloat → Prop
  | .infinity _ | .finite _ _ _ _ => True
  | .zero _ | .notANumber => False

/-- Packing it leaves a number that is not zero. -/
theorem apart_pack {hm : 0 < m} (hm' : m < 2 ^ 53) (he : -1074 ≤ e) :
    Apart (Float.Model.pack (.finite sign m e hm)).unpack := by
  rcases unpack_pack_cases hm' he with h | ⟨k, f, hk, h⟩ <;> rw [h] <;> trivial

/-- A zero is stored with its sign. -/
theorem unpack_pack_zero (sign : Sign) :
    (Float.Model.pack (.zero sign)).unpack = .zero sign := by
  cases sign <;> rfl

/-- An integer that is not zero, scaled by a power of two, does not become zero. -/
theorem apart_normalize {s : ℤ} (hs : s ≠ 0) (he : -1074 ≤ e) (zeroSign : Sign) :
    Apart (Float.Model.pack (UnpackedFloat.normalize .binary64 s e zeroSign)).unpack := by
  unfold UnpackedFloat.normalize
  rcases lt_trichotomy s 0 with hlt | rfl | hlt
  · rw [compare_lt_iff_lt.mpr hlt]
    obtain ⟨k, f, hk, hround, hlt, hf⟩ := exists_round .negative (m := (-s).toNat) (by omega) he
    dsimp only
    rw [hround]
    exact apart_pack hlt hf
  · exact absurd rfl hs
  · rw [compare_gt_iff_gt.mpr hlt]
    obtain ⟨k, f, hk, hround, hlt, hf⟩ := exists_round .positive (m := s.toNat) (by omega) he
    dsimp only
    rw [hround]
    exact apart_pack hlt hf

/-! ### Sums -/

/-- The number that a float is which has been taken apart. -/
def worth : UnpackedFloat → ℚ
  | .finite sign m e _ => sign.apply 1 * (m * 2 ^ e)
  | .zero _ | .infinity _ | .notANumber => 0

/-- The worth of a finite float, taken apart, is its value. -/
theorem worth_unpack (h : x.isFinite = true) : worth x.toModel.unpack = value x := by
  rcases cases_of_isFinite h with ⟨sign, hx⟩ | ⟨sign, m, e, hm, hx⟩
  · rw [value_of_zero hx, hx]
    rfl
  · rw [value_of_finite hx, hx]
    rfl

/-- A sign multiplies by one or by minus one. -/
theorem sign_apply (sign : Sign) (k : ℤ) : sign.apply k = sign.apply 1 * k := by
  cases sign <;> simp [Sign.apply]

/-- The factor of a sign is not zero. -/
theorem sign_apply_ne_zero (sign : Sign) : (sign.apply 1 : ℚ) ≠ 0 := by
  cases sign <;> simp [Sign.apply]

/-- A number with a mantissa is not zero. -/
theorem worth_finite_ne_zero {hm : 0 < m} : worth (.finite sign m e hm) ≠ 0 := by
  have hpos : (0 : ℚ) < m * 2 ^ e := by positivity
  exact mul_ne_zero (sign_apply_ne_zero sign) hpos.ne'

/-- A smaller exponent changes the mantissa, not the number. -/
theorem apply_decreaseExponent (sign : Sign) (m : ℕ) (h : f ≤ e) :
    (sign.apply (decreaseExponent m e f).1 : ℚ) * 2 ^ f = sign.apply 1 * (m * 2 ^ e) := by
  obtain ⟨k, rfl⟩ : ∃ k : ℕ, e = f + k := ⟨(e - f).toNat, by omega⟩
  have hshift : (f + k - f).toNat = k := by omega
  unfold decreaseExponent
  dsimp only
  rw [sign_apply, hshift, Nat.shiftLeft_eq, zpow_add₀ (by norm_num), zpow_natCast]
  push_cast
  ring

/-- Both mantissas are brought to the smaller exponent, and added as integers. -/
theorem exists_normalize_add (hm : 0 < m) (hn : 0 < n) (s s' : Sign) (e f : ℤ) :
    ∃ k : ℤ, UnpackedFloat.add .binary64 (.finite s m e hm) (.finite s' n f hn)
        = UnpackedFloat.normalize .binary64 k (min e f) .positive
      ∧ worth (.finite s m e hm) + worth (.finite s' n f hn) = k * 2 ^ min e f := by
  refine ⟨s.apply (decreaseExponent m e (min e f)).1 + s'.apply (decreaseExponent n f (min e f)).1,
    rfl, ?_⟩
  rw [Int.cast_add, add_mul, apply_decreaseExponent s m (min_le_left _ _),
    apply_decreaseExponent s' n (min_le_right _ _)]
  rfl

variable {a b : UnpackedFloat}

/-- A sum of finite floats is zero exactly if it would be zero without rounding; and then it has no
    sign, unless both are zeros with a sign. -/
theorem unpacked_add_cases (ha : Canonical a) (hb : Canonical b) (ha' : a.isFinite = true)
    (hb' : b.isFinite = true) :
    (worth a + worth b = 0 ∧ ∃ sign, (Float.Model.pack (a.add .binary64 b)).unpack = .zero sign
        ∧ (sign = .negative → a = .zero .negative))
      ∨ worth a + worth b ≠ 0 ∧ Apart (Float.Model.pack (a.add .binary64 b)).unpack := by
  -- A zero adds nothing; two numbers are brought to one exponent and added exactly before they are
  -- rounded.
  rcases a with s | _ | s | ⟨s, m, e, hm⟩
  · cases ha'
  · cases ha'
  · rcases b with s' | _ | s' | ⟨s', n, f, hn⟩
    · cases hb'
    · cases hb'
    · left
      refine ⟨add_zero (0 : ℚ), ?_⟩
      cases s <;> cases s'
      · exact ⟨.negative, unpack_pack_zero _, fun _ => rfl⟩
      all_goals exact ⟨.positive, unpack_pack_zero _, fun h => Sign.noConfusion h⟩
    · right
      refine ⟨?_, apart_pack hb.1 hb.2.1⟩
      rw [show worth (.zero s) = 0 from rfl, zero_add]
      exact worth_finite_ne_zero
  · rcases b with s' | _ | s' | ⟨s', n, f, hn⟩
    · cases hb'
    · cases hb'
    · right
      refine ⟨?_, apart_pack ha.1 ha.2.1⟩
      rw [show worth (.zero s') = 0 from rfl, add_zero]
      exact worth_finite_ne_zero
    · have hexponent : -1074 ≤ min e f := le_min ha.2.1 hb.2.1
      have hpos : (0 : ℚ) < 2 ^ min e f := by positivity
      obtain ⟨k, hadd, hworth⟩ := exists_normalize_add hm hn s s' e f
      rw [hadd, hworth]
      by_cases hk : k = 0
      · left
        subst hk
        exact ⟨by simp, .positive, unpack_pack_zero _, fun h => Sign.noConfusion h⟩
      · right
        have hne : (k : ℚ) ≠ 0 := by exact_mod_cast hk
        exact ⟨mul_ne_zero hne hpos.ne', apart_normalize hk hexponent _⟩

/-- A difference is the sum with the negative. -/
theorem unpacked_sub_eq (a b : UnpackedFloat) : a.sub .binary64 b = a.add .binary64 b.neg := by
  have hneg : ∀ (sign : Sign) (k : ℤ), (-sign).apply k = -sign.apply k := by
    intro sign k
    cases sign
    · exact (Int.neg_neg k).symm
    · rfl
  rcases a with s | _ | s | ⟨s, m, e, hm⟩ <;> rcases b with s' | _ | s' | ⟨s', n, f, hn⟩ <;>
    simp only [UnpackedFloat.sub, UnpackedFloat.add, UnpackedFloat.neg, hneg, Int.sub_eq_add_neg]

/-- The negative of a number is worth its negative. -/
theorem worth_neg (a : UnpackedFloat) : worth a.neg = -worth a := by
  rcases a with s | _ | s | ⟨s, m, e, hm⟩
  · exact neg_zero.symm
  · exact neg_zero.symm
  · exact neg_zero.symm
  · cases s
    · show (1 : ℤ) * ((m : ℚ) * 2 ^ e) = -(((-1 : ℤ) : ℚ) * (m * 2 ^ e))
      push_cast
      ring
    · show ((-1 : ℤ) : ℚ) * ((m : ℚ) * 2 ^ e) = -(((1 : ℤ) : ℚ) * (m * 2 ^ e))
      push_cast
      ring

/-- The negative of what is finite is finite. -/
theorem isFinite_unpacked_neg (ha : a.isFinite = true) : a.neg.isFinite = true := by
  cases a <;> exact ha

/-- The negative of a form is a form. -/
theorem canonical_neg (ha : Canonical a) : Canonical a.neg := by
  cases a <;> exact ha

/-- **A sum is zero only if it is zero without rounding**: rounding never makes a sum zero. -/
theorem add_cases (hx : x.isFinite = true) (hy : y.isFinite = true) :
    (value x + value y = 0 ∧ ∃ sign, (x + y).toModel.unpack = .zero sign
        ∧ (sign = .negative → x = -0))
      ∨ value x + value y ≠ 0 ∧ Apart (x + y).toModel.unpack := by
  rw [← worth_unpack hx, ← worth_unpack hy]
  rcases unpacked_add_cases (canonical_unpack x) (canonical_unpack y) hx hy with
    ⟨hsum, sign, hzero, hsign⟩ | hsum
  · exact .inl ⟨hsum, sign, hzero, fun h => eq_neg_zero (hsign h)⟩
  · exact .inr hsum

/-- A sum of finite floats is not the zero with a sign, unless the first one is. -/
theorem add_ne_neg_zero (hx : x.isFinite = true) (hy : y.isFinite = true) (hne : x ≠ -0) :
    x + y ≠ -0 := by
  intro h
  have hzero : (x + y).toModel.unpack = .zero .negative := by rw [h]; rfl
  rcases add_cases hx hy with ⟨-, sign, hsum, hsign⟩ | ⟨-, hapart⟩
  · exact hne (hsign (UnpackedFloat.zero.inj (hsum.symm.trans hzero)))
  · rw [hzero] at hapart
    exact hapart

/-- **What is no number makes a sum no number.** -/
theorem isNaN_add (h : x.isNaN = true ∨ y.isNaN = true) : (x + y).isNaN = true := by
  show (Float.Model.pack (x.toModel.unpack.add .binary64 y.toModel.unpack)).unpack.isNaN = true
  change x.toModel.unpack.isNaN = true ∨ y.toModel.unpack.isNaN = true at h
  generalize x.toModel.unpack = a at h ⊢
  generalize y.toModel.unpack = b at h ⊢
  have hnan : (Float.Model.pack .notANumber).unpack.isNaN = true := by decide +kernel
  have hadd : a.add .binary64 b = .notANumber := by
    rcases h with h | h
    · cases a <;> first | rfl | cases h
    · cases b <;> first | (cases a <;> rfl) | cases h
  rw [hadd]
  exact hnan

/-! ### Differences -/

/-- A difference is zero exactly if both floats have one value. -/
theorem sub_cases (hx : x.isFinite = true) (hy : y.isFinite = true) :
    (value x = value y ∧ ∃ sign, (x - y).toModel.unpack = .zero sign)
      ∨ value x ≠ value y ∧ Apart (x - y).toModel.unpack := by
  have hsub : (x - y).toModel.unpack = (Float.Model.pack
      (x.toModel.unpack.add .binary64 y.toModel.unpack.neg)).unpack := by
    rw [← unpacked_sub_eq]
    rfl
  rw [hsub, ← worth_unpack hx, ← worth_unpack hy, ne_eq, ← sub_eq_zero, sub_eq_add_neg, ← worth_neg]
  rcases unpacked_add_cases (canonical_unpack x) (canonical_neg (canonical_unpack y)) hx
    (isFinite_unpacked_neg hy) with ⟨hsum, sign, hzero, -⟩ | hsum
  · exact .inl ⟨hsum, sign, hzero⟩
  · exact .inr hsum

/-- Floats at one place, not both at the place of `y`, differ from `y` by the same. -/
theorem sub_congr {x' : Float} (hx : x.isNaN = false) (hx' : x'.isNaN = false)
    (hy : y.isFinite = true) (hrank : rank x' = rank x) (hne : rank x ≠ rank y) :
    x' - y = x - y := by
  rcases unpacked_eq_or_zero _ _ hx' hx hrank with heq | ⟨sign, sign', hzero, hzero'⟩
  · rw [eq_of_unpack heq]
  · -- Both are zeros, so `y` is not, and the sign of a zero is lost.
    rcases cases_of_isFinite hy with ⟨s, hy⟩ | ⟨s, m, e, hm, hy⟩
    · unfold rank at hne
      rw [hzero', hy] at hne
      exact absurd rfl hne
    · have hsub : x'.toModel.unpack.sub .binary64 y.toModel.unpack
          = x.toModel.unpack.sub .binary64 y.toModel.unpack := by
        rw [hzero, hzero', hy]
        rfl
      exact congrArg (fun r => Float.ofModel (Float.Model.pack r)) hsub

/-! ### Quotients and products -/

/-- A NaN that is divided is a NaN. -/
theorem isNaN_div (h : x.isNaN = true) (y : Float) : (x / y).isNaN = true := by
  change x.toModel.unpack.isNaN = true at h
  have hnan : (Float.Model.pack .notANumber).unpack.isNaN = true := by decide +kernel
  have hdiv : x.toModel.unpack.div .binary64 y.toModel.unpack = .notANumber := by
    cases hx : x.toModel.unpack with
    | notANumber => rfl
    | infinity _ | zero _ | finite _ _ _ _ =>
      rw [hx] at h
      cases h
  show (Float.Model.pack (x.toModel.unpack.div .binary64 y.toModel.unpack)).unpack.isNaN = true
  rw [hdiv]
  exact hnan

/-- A number divided by itself. -/
theorem div_self_of_finite {hm : 0 < m} (h : x.toModel.unpack = .finite sign m e hm) :
    x / x = 1 := by
  have hlog : totalExponent m e - totalExponent m e = 0 := sub_self _
  -- The quotient of a mantissa by itself is a power of two, without a remainder.
  have hcore : divCore .binary64 m e m e = (2 ^ 53, -53, .exact) := by
    have htarget : min (e - e) (Format.binary64.targetExponent 0) = -53 := by
      rw [sub_self]
      decide
    unfold divCore
    dsimp only
    rw [hlog, htarget, sub_self, Nat.shiftLeft_eq, Nat.mul_mod_right, Nat.mul_div_cancel_left _ hm]
    rfl
  have hsign : sign / sign = .positive := by cases sign <;> rfl
  have hdiv : x.toModel.unpack.div .binary64 x.toModel.unpack
      = .finite .positive (2 ^ 52) (-52) (Nat.two_pow_pos 52) := by
    rw [h]
    unfold UnpackedFloat.div
    dsimp only
    rw [hcore, hsign]
    rfl
  have hone : (x / x).toModel = (1 : Float).toModel := by
    show Float.Model.pack (x.toModel.unpack.div .binary64 x.toModel.unpack) = _
    rw [hdiv]
    rfl
  exact congrArg Float.ofModel hone

/-- The product does not depend on the order of its factors. -/
theorem unpacked_mul_comm (a b : UnpackedFloat) : a.mul .binary64 b = b.mul .binary64 a := by
  have hsign : ∀ s t : Sign, s * t = t * s := by
    intro s t
    cases s <;> cases t <;> rfl
  rcases a with s | _ | s | ⟨s, m, e, hm⟩ <;> rcases b with s' | _ | s' | ⟨s', n, f, hn⟩ <;>
    simp only [UnpackedFloat.mul, hsign, Nat.mul_comm, Int.add_comm]

/-- One times a whole number is that number. -/
theorem one_mul_of_isWhole (h : IsWhole x n) (hn : n < 2 ^ 53) : IsWhole (1 * x) n := by
  have hone : (1 : Float).toModel.unpack
      = .finite .positive (2 ^ 52) (-52) (Nat.two_pow_pos 52) := by rfl
  show (Float.Model.pack ((1 : Float).toModel.unpack.mul .binary64 x.toModel.unpack)).unpack = _
  rw [h, hone, unpacked_mul_comm, mul_stored_one hn, unpack_pack_stored hn]

end MeshExpr.FloatSum
