import MeshExpr.Proofs.Number.Order
import MeshExpr.Proofs.Number.Value

namespace MeshExpr.FloatForm

open Float.Model UnpackedFloat FloatWhole FloatValue FloatOrder

/-!
# One form for each number

A float that is taken apart is in one form: its mantissa is full, unless its exponent is the least
one. So nothing is lost when floats are taken apart, and of two finite floats the one with the
greater value is the greater one. The only floats that are told apart by their bits and not by their
place in the order are the two zeros.

* `Canonical` — the form of a float.
* `pack_unpack` and `eq_of_unpack` — **a float is what it is taken apart into**.
* `rank_lt_iff` and `rank_eq_iff` — **finite floats are ordered by value**.
* `OppositeZeros` and `eq_or_oppositeZeros` — the floats that share a place.
-/

variable {x y : Float} {sign sign' : Sign} {m n : ℕ} {e f : ℤ}

/-! ### Bits -/

/-- A sign is stored in one bit. -/
theorem toBitVec_ofBitVec (b : BitVec 1) : (Sign.ofBitVec b).toBitVec = b := by
  unfold Sign.ofBitVec
  split
  · rename_i h
    rw [h]
    rfl
  · rename_i h
    have hne : b.toNat ≠ 0 := fun hzero => h (BitVec.eq_of_toNat_eq hzero)
    have hlt := b.isLt
    apply BitVec.eq_of_toNat_eq
    change 1 = b.toNat
    omega

/-- The bits of a float are those of its sign, its exponent and its mantissa. -/
theorem packComponents_unpack (b : BitVec (Format.numBits .binary64)) :
    packComponents .binary64 (Sign.ofBitVec (unpackSign b)) (unpackExponent b) (unpackMantissa b)
      = b := by
  have hlt : b.toNat < 2 ^ 64 := b.isLt
  apply BitVec.eq_of_toNat_eq
  unfold packComponents
  rw [toBitVec_ofBitVec, BitVec.toNat_append, BitVec.toNat_append,
    ← Nat.shiftLeft_add_eq_or_of_lt (BitVec.isLt _),
    ← Nat.shiftLeft_add_eq_or_of_lt (BitVec.isLt _),
    unpackSign_def, unpackExponent_def, unpackMantissa_def]
  simp only [BitVec.extractLsb'_toNat, Nat.shiftLeft_eq, Nat.shiftRight_eq_div_pow]
  norm_num
  omega

/-! ### One form for each float -/

/-- The form of a float: its mantissa is full, unless its exponent is the least one. -/
def Canonical : UnpackedFloat → Prop
  | .finite _ m e _ => m < 2 ^ 53 ∧ -1074 ≤ e ∧ (2 ^ 52 ≤ m ∨ e = -1074)
  | .zero _ | .infinity _ | .notANumber => True

/-- Every float is taken apart into its form. -/
theorem canonical_unpack (x : Float) : Canonical x.toModel.unpack := by
  change Canonical (UnpackedFloat.unpack .binary64 x.toBits.toBitVec)
  unfold UnpackedFloat.unpack
  dsimp only
  split
  · split <;> trivial
  split
  · split
    · trivial
    · -- The smallest floats have no hidden bit.
      rename_i hzero hne
      have hlt := (@unpackMantissa .binary64 x.toBits.toBitVec).isLt
      rw [hzero]
      exact ⟨hlt.trans (show 2 ^ 52 < 2 ^ 53 by decide), by decide, .inr rfl⟩
  · rename_i hne
    -- All others have the hidden bit.
    have hpos : (@unpackExponent .binary64 x.toBits.toBitVec).toNat ≠ 0 :=
      fun h => hne (BitVec.eq_of_toNat_eq h)
    have hbias : (Format.binary64.exponentBias : ℤ) + Format.binary64.mantissaBitsWithoutImplicit
        = 1075 := rfl
    rw [hbias]
    refine ⟨BitVec.isLt _, by omega, .inl ?_⟩
    rw [BitVec.toNat_append, ← Nat.shiftLeft_add_eq_or_of_lt (BitVec.isLt _)]
    exact Nat.le_add_right _ _

/-- Taking a float apart and putting it together again changes nothing. -/
theorem pack_unpack (x : Float) : Float.Model.pack x.toModel.unpack = x.toModel := by
  have hbits := packComponents_unpack x.toBits.toBitVec
  generalize hm : @unpackMantissa .binary64 x.toBits.toBitVec = mantissa at hbits
  generalize he : @unpackExponent .binary64 x.toBits.toBitVec = exponent at hbits
  have hmantissa : mantissa.toNat < 2 ^ 52 := mantissa.isLt
  have hexponent : exponent.toNat < 2 ^ 11 := exponent.isLt
  have hbias : (Format.binary64.exponentBias : ℤ) + Format.binary64.mantissaBitsWithoutImplicit
      = 1075 := rfl
  have hpack : UnpackedFloat.pack .binary64
      (UnpackedFloat.unpack .binary64 x.toBits.toBitVec) = x.toBits.toBitVec := by
    unfold UnpackedFloat.unpack
    simp only [hm, he, hbias]
    split
    · rename_i hones
      subst hones
      split
      · rename_i hzero
        rw [hzero] at hbits
        exact hbits
      · -- There is only one float that is no number.
        rename_i hne
        exact (x.toModel.valid.eq_packedNaN he (hm ▸ hne)).symm
    rename_i hones
    split
    · rename_i hzero
      subst hzero
      split
      · rename_i hzero
        rw [hzero] at hbits
        exact hbits
      · rename_i hne
        have hpos : mantissa.toNat ≠ 0 := fun h => hne (BitVec.eq_of_toNat_eq h)
        have hlog := (Nat.log2_lt hpos).mpr hmantissa
        rw [pack_finite (by decide), if_neg (by omega), BitVec.ofNat_toNat, BitVec.setWidth_eq]
        exact hbits
    · rename_i hzero
      have hlt : exponent.toNat ≠ 2 ^ 11 - 1 := fun h => hones (BitVec.eq_of_toNat_eq h)
      -- With the hidden bit the mantissa is full; packing takes the bit away again.
      have hfull : (1#1 ++ mantissa).toNat = 2 ^ 52 + mantissa.toNat := by
        rw [BitVec.toNat_append, ← Nat.shiftLeft_add_eq_or_of_lt mantissa.isLt]
        rfl
      have hlog : (2 ^ 52 + mantissa.toNat).log2 = 52 :=
        (Nat.log2_eq_iff (by omega)).mpr ⟨by omega, by omega⟩
      rw [pack_finite (by omega)]
      simp only [hfull]
      have hfraction : BitVec.ofNat 52 (2 ^ 52 + mantissa.toNat) = mantissa := by
        apply BitVec.eq_of_toNat_eq
        rw [BitVec.toNat_ofNat, Nat.add_mod_left, Nat.mod_eq_of_lt hmantissa]
      rw [if_pos hlog, hfraction, Int.sub_add_cancel, Int.toNat_natCast, BitVec.ofNat_toNat,
        BitVec.setWidth_eq]
      exact hbits
  have htoBits : (Float.Model.pack x.toModel.unpack).toBits = x.toModel.toBits :=
    UInt64.toBitVec_inj.mp hpack
  generalize Float.Model.pack x.toModel.unpack = packed at htoBits
  generalize x.toModel = model at htoBits
  obtain ⟨bits, valid⟩ := packed
  subst htoBits
  rfl

/-- A float is what it is taken apart into. -/
theorem eq_of_unpack (h : x.toModel.unpack = y.toModel.unpack) : x = y := by
  have hmodel : x.toModel = y.toModel := by rw [← pack_unpack x, h, pack_unpack y]
  exact congrArg Float.ofModel hmodel

/-! ### Order and value -/

/-- Of two sizes in their form, the exponents decide first and then the mantissas. -/
theorem size_lt_of_lt {hm : 0 < m} {hn : 0 < n} (hx : Canonical (.finite sign m e hm))
    (hy : Canonical (.finite sign' n f hn)) (h : e < f ∨ e = f ∧ m < n) :
    (m : ℚ) * 2 ^ e < (n : ℚ) * 2 ^ f := by
  have hpos : (0 : ℚ) < 2 ^ e := by positivity
  rcases h with hlt | ⟨rfl, hlt⟩
  · -- The greater exponent is not the least one, so its mantissa is full.
    obtain ⟨-, -, hfull⟩ := hy
    obtain ⟨hbits, hleast, -⟩ := hx
    obtain ⟨k, rfl⟩ : ∃ k : ℕ, f = e + 1 + k := ⟨(f - e - 1).toNat, by omega⟩
    have hm' : (m : ℚ) < 2 ^ 53 := by exact_mod_cast hbits
    have hn' : (2 : ℚ) ^ 52 ≤ n := by exact_mod_cast hfull.resolve_right (by omega)
    have hk : (1 : ℚ) ≤ 2 ^ k := one_le_pow₀ (by norm_num)
    rw [zpow_add₀ (by norm_num), zpow_add₀ (by norm_num), zpow_one, zpow_natCast]
    calc (m : ℚ) * 2 ^ e < 2 ^ 53 * 2 ^ e := mul_lt_mul_of_pos_right hm' hpos
      _ = 2 ^ 52 * (2 ^ e * 2 * 1) := by ring
      _ ≤ n * (2 ^ e * 2 * 2 ^ k) := by gcongr
  · exact mul_lt_mul_of_pos_right (by exact_mod_cast hlt) hpos

/-- Of two floats in their form, the larger exponent has the larger size. -/
theorem size_lt_iff {hm : 0 < m} {hn : 0 < n} (hx : Canonical (.finite sign m e hm))
    (hy : Canonical (.finite sign' n f hn)) :
    (m : ℚ) * 2 ^ e < (n : ℚ) * 2 ^ f ↔ e < f ∨ e = f ∧ m < n := by
  refine ⟨fun h => ?_, size_lt_of_lt hx hy⟩
  by_contra hnot
  by_cases heq : e = f ∧ m = n
  · obtain ⟨rfl, rfl⟩ := heq
    exact absurd h (lt_irrefl _)
  · exact absurd h (size_lt_of_lt hy hx (by omega)).asymm

/-- A finite float is zero, or has a mantissa and an exponent. -/
theorem cases_of_isFinite (h : x.isFinite = true) : (∃ sign, x.toModel.unpack = .zero sign)
    ∨ ∃ sign m e hm, x.toModel.unpack = .finite sign m e hm := by
  change x.toModel.unpack.isFinite = true at h
  cases hx : x.toModel.unpack with
  | zero sign => exact .inl ⟨sign, rfl⟩
  | finite sign m e hm => exact .inr ⟨sign, m, e, hm, rfl⟩
  | infinity sign | notANumber =>
    rw [hx] at h
    cases h

/-- **Finite floats are ordered by value.** -/
theorem rank_lt_iff (hx : x.isFinite = true) (hy : y.isFinite = true) :
    rank x < rank y ↔ value x < value y := by
  have hformx := canonical_unpack x
  have hformy := canonical_unpack y
  unfold rank
  rcases cases_of_isFinite hx with ⟨sign, hzero⟩ | ⟨sign, m, e, hm, hfinite⟩ <;>
    rcases cases_of_isFinite hy with ⟨sign', hzero'⟩ | ⟨sign', n, f, hn, hfinite'⟩
  · rw [hzero, hzero', value_of_zero hzero, value_of_zero hzero']
    simp [placeOf]
  · rw [hzero, hfinite', value_of_zero hzero, value_of_finite hfinite']
    have hpos : (0 : ℚ) < n * 2 ^ f := by positivity
    cases sign' with
    | positive => simpa [placeOf, Prod.Lex.toLex_lt_toLex, Sign.apply] using hpos
    | negative => simpa [placeOf, Prod.Lex.toLex_lt_toLex, Sign.apply] using hpos.le
  · rw [hfinite, hzero', value_of_zero hzero', value_of_finite hfinite]
    have hpos : (0 : ℚ) < m * 2 ^ e := by positivity
    cases sign with
    | positive => simpa [placeOf, Prod.Lex.toLex_lt_toLex, Sign.apply] using hpos.le
    | negative => simpa [placeOf, Prod.Lex.toLex_lt_toLex, Sign.apply] using hpos
  · rw [hfinite] at hformx ⊢
    rw [hfinite'] at hformy ⊢
    rw [value_of_finite hfinite, value_of_finite hfinite']
    have hpos : (0 : ℚ) < m * 2 ^ e := by positivity
    have hpos' : (0 : ℚ) < n * 2 ^ f := by positivity
    -- Two numbers with a mantissa: the signs decide, and then the sizes.
    have hless := size_lt_iff hformx hformy
    have hless' := size_lt_iff hformy hformx
    cases sign <;> cases sign' <;>
      simp only [placeOf, Prod.Lex.toLex_lt_toLex, Sign.apply, lt_self_iff_false, false_or,
        true_and]
    · -- Below zero, the greater size is the smaller number.
      push_cast
      rw [neg_one_mul, neg_one_mul, neg_lt_neg_iff (a := (m : ℚ) * 2 ^ e), hless']
      omega
    · push_cast
      exact iff_of_true (.inl (by decide)) (by linarith)
    · push_cast
      exact iff_of_false (by simp) (by linarith)
    · push_cast
      rw [one_mul, one_mul, hless]
      omega

/-- Finite floats have one place if they are one number. -/
theorem rank_eq_iff (hx : x.isFinite = true) (hy : y.isFinite = true) :
    rank x = rank y ↔ value x = value y := by
  have hlt := rank_lt_iff hx hy
  have hlt' := rank_lt_iff hy hx
  constructor
  · intro h
    exact le_antisymm (not_lt.mp fun hless => (hlt'.mpr hless).ne' h)
      (not_lt.mp fun hless => (hlt.mpr hless).ne h)
  · intro h
    exact le_antisymm (not_lt.mp fun hless => (hlt'.mp hless).ne' h)
      (not_lt.mp fun hless => (hlt.mp hless).ne h)

/-- A finite float is a number. -/
theorem isNaN_of_isFinite (h : x.isFinite = true) : x.isNaN = false := by
  change x.toModel.unpack.isNaN = false
  rcases cases_of_isFinite h with ⟨sign, hx⟩ | ⟨sign, m, e, hm, hx⟩ <;> rw [hx] <;> rfl

/-! ### The two zeros -/

/-- Two zeros that differ, by their sign; no comparison sees it. -/
def OppositeZeros (x y : Float) : Prop := x = 0 ∧ y = -0 ∨ x = -0 ∧ y = 0

/-- The zero without a sign is `0`. -/
theorem eq_zero (h : x.toModel.unpack = .zero .positive) : x = 0 := eq_of_unpack (h.trans (by rfl))

/-- The zero with a sign is `-0`. -/
theorem eq_neg_zero (h : x.toModel.unpack = .zero .negative) : x = -0 :=
  eq_of_unpack (h.trans (by rfl))

/-- Numbers that have been taken apart and have one place are equal, or both are zero. -/
theorem unpacked_eq_or_zero (a b : UnpackedFloat) :
    a.isNaN = false → b.isNaN = false → placeOf a = placeOf b →
      a = b ∨ ∃ sign sign', a = .zero sign ∧ b = .zero sign' := by
  rcases a with (_ | _) | _ | _ | ⟨_ | _, m, e, -⟩ <;>
    rcases b with (_ | _) | _ | _ | ⟨_ | _, n, f, -⟩ <;>
    simp +contextual [placeOf, UnpackedFloat.isNaN]

/-- Two numbers at one place are one float, or zeros of opposite sign. -/
theorem eq_or_oppositeZeros (hx : x.isNaN = false) (hy : y.isNaN = false) (h : rank x = rank y) :
    x = y ∨ OppositeZeros x y := by
  rcases unpacked_eq_or_zero _ _ hx hy h with heq | ⟨sign, sign', hzero, hzero'⟩
  · exact .inl (eq_of_unpack heq)
  · cases sign <;> cases sign'
    · exact .inl (eq_of_unpack (hzero.trans hzero'.symm))
    · exact .inr (.inr ⟨eq_neg_zero hzero, eq_zero hzero'⟩)
    · exact .inr (.inl ⟨eq_zero hzero, eq_neg_zero hzero'⟩)
    · exact .inl (eq_of_unpack (hzero.trans hzero'.symm))

/-- Finite floats of one value that are no zeros with a sign are one float. -/
theorem eq_of_value (hx : x.isFinite = true) (hy : y.isFinite = true) (hx' : x ≠ -0) (hy' : y ≠ -0)
    (h : value x = value y) : x = y := by
  have hrank := (rank_eq_iff hx hy).mpr h
  rcases eq_or_oppositeZeros (isNaN_of_isFinite hx) (isNaN_of_isFinite hy) hrank with
    heq | ⟨-, hzero⟩ | ⟨hzero, -⟩
  · exact heq
  · exact absurd hzero hy'
  · exact absurd hzero hx'

end MeshExpr.FloatForm
