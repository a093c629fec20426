import MeshExpr.Proofs.Mesh.Bins
import MeshExpr.Proofs.Number.Sum

namespace MeshExpr

open Float.Model UnpackedFloat FloatWhole FloatValue FloatOrder FloatForm FloatSum

/-!
# The outer bins of a range

The bin of a sample is found by a difference, a quotient and a product of floats. The bounds of a
range are in its outer bins, however narrow the range is, since the width of a range of floats is
never rounded to zero. It may be rounded to infinity though, and then every sample is in the first
bin.

* `Mesh.binIndex?_of_minVal` and `Mesh.binIndex?_of_maxVal` — **the bounds are in the outer bins**,
  the upper one only if the range has a finite width.
* `Mesh.binIndex?_of_infinite` — a range that is too wide has all samples in the first bin.
* `Mesh.saturatedTally` — what a rank alone has counted, `Mesh.runAlone_fieldHistogram` that it has.
-/

namespace Mesh

variable {bins : Nat} {minVal maxVal x : Float} {sign : Sign}

/-! ### Zeros and ones -/

/-- A zero of either sign is not above zero. -/
theorem le_zero_of_zero (h : x.toModel.unpack = .zero sign) : x ≤ 0 := by
  have hnumber : x.isNaN = false := by
    show x.toModel.unpack.isNaN = false
    rw [h]
    rfl
  have hrank : rank x = rank 0 := by
    unfold rank
    rw [h]
    rfl
  exact le_iff.mpr ⟨hnumber, by rfl, hrank.le⟩

/-- What becomes of a sample once its place in the range is known. -/
def indexOf (bins : Nat) (scaled : Float) : Nat :=
  if scaled ≤ 0 then 0 else min scaled.toUInt64.toNat (bins - 1)

/-- The bin of a number is made of its place between the bounds. -/
theorem binIndex?_eq (hbins : 0 < bins) (hx : x.isNaN = false) : binIndex? bins minVal maxVal x
    = some (indexOf bins ((x - minVal) / (maxVal - minVal) * bins.toFloat)) := by
  have hsome : (bins == 0) = false := by simpa using hbins.ne'
  unfold binIndex?
  rw [hx, hsome, Bool.false_or, if_neg Bool.false_ne_true]
  rfl

/-- Zero times the number of bins. -/
theorem indexOf_of_zero (hbins : 0 < bins) (hfew : bins < 2 ^ 53)
    (h : x.toModel.unpack = .zero sign) : indexOf bins (x * bins.toFloat) = 0 := by
  have hwhole : bins.toFloat.toModel.unpack = stored bins := isWhole_ofNat hfew
  have hmul :
      UnpackedFloat.mul .binary64 (.zero sign) (stored bins) = .zero (sign * .positive) := by
    rw [stored_of_pos hbins]
    rfl
  have hzero : (x * bins.toFloat).toModel.unpack = .zero (sign * .positive) := by
    show (Float.Model.pack (x.toModel.unpack.mul .binary64 bins.toFloat.toModel.unpack)).unpack = _
    rw [h, hwhole, hmul]
    exact unpack_pack_zero _
  exact if_pos (le_zero_of_zero hzero)

/-- What is no number is converted to zero. -/
theorem indexOf_of_isNaN (h : x.toModel.unpack = .notANumber) :
    indexOf bins (x * bins.toFloat) = 0 := by
  have hnan : x * bins.toFloat = Float.ofModel (Float.Model.pack .notANumber) := by
    show Float.ofModel (Float.Model.pack
      (x.toModel.unpack.mul .binary64 bins.toFloat.toModel.unpack)) = _
    rw [h]
    rfl
  have hconverted : (Float.ofModel (Float.Model.pack .notANumber)).toUInt64.toNat = 0 := by
    decide +kernel
  unfold indexOf
  rw [hnan, hconverted, Nat.zero_min, ite_self]

/-- One times the number of bins. -/
theorem indexOf_of_one (hbins : 0 < bins) (hfew : bins < 2 ^ 53) :
    indexOf bins (1 * bins.toFloat) = bins - 1 := by
  have hwhole := isWhole_ofNat hfew
  have hproduct : IsWhole (1 * bins.toFloat) bins := one_mul_of_isWhole hwhole hfew
  have hpos : ¬1 * bins.toFloat ≤ 0 := by
    intro hle
    have hfinite := isFinite_of_isWhole hproduct
    have hzero := isFinite_of_isWhole isWhole_zero
    have hrank := (le_iff.mp hle).2.2
    rw [← not_lt, rank_lt_iff hzero hfinite, value_zero, value_of_isWhole hproduct hfew] at hrank
    exact hrank (by exact_mod_cast hbins)
  unfold indexOf
  rw [if_neg hpos, hproduct.toNat_toUInt64 hfew, Nat.min_eq_right (Nat.sub_le _ _)]

/-! ### The bounds of a range -/

/-- A width that is no zero, as a divisor. -/
theorem div_of_zero {w : Float} (h : x.toModel.unpack = .zero sign) (hw : Apart w.toModel.unpack) :
    ∃ sign', (x / w).toModel.unpack = .zero sign' := by
  have hdiv : ∃ sign', x.toModel.unpack.div .binary64 w.toModel.unpack = .zero sign' := by
    rw [h]
    cases hunpack : w.toModel.unpack with
    | finite _ _ _ _ | infinity _ => exact ⟨_, rfl⟩
    | zero _ | notANumber =>
      rw [hunpack] at hw
      exact hw.elim
  obtain ⟨sign', hsign⟩ := hdiv
  refine ⟨sign', ?_⟩
  show (Float.Model.pack (x.toModel.unpack.div .binary64 w.toModel.unpack)).unpack = _
  rw [hsign]
  exact unpack_pack_zero _

/-- **The lower bound is in the first bin**, and so is whatever is equal to it. -/
theorem binIndex?_of_minVal (hbins : 0 < bins) (hfew : bins < 2 ^ 53) (hx : x.isFinite = true)
    (hmin : minVal.isFinite = true) (hmax : maxVal.isFinite = true) (hrange : minVal < maxVal)
    (heq : rank x = rank minVal) : binIndex? bins minVal maxVal x = some 0 := by
  have hwidth : Apart (maxVal - minVal).toModel.unpack := by
    have hlt := (rank_lt_iff hmin hmax).mp (lt_iff.mp hrange).2.2
    exact ((sub_cases hmax hmin).resolve_left fun h => hlt.ne' h.1).2
  obtain ⟨sign, hzero⟩ : ∃ sign, (x - minVal).toModel.unpack = .zero sign :=
    ((sub_cases hx hmin).resolve_right fun h => h.1 ((rank_eq_iff hx hmin).mp heq)).2
  obtain ⟨sign', hquotient⟩ := div_of_zero hzero hwidth
  rw [binIndex?_eq hbins (isNaN_of_isFinite hx), indexOf_of_zero hbins hfew hquotient]

/-- **The upper bound is in the last bin**, and so is whatever is equal to it, if the width of the
    range is a number. -/
theorem binIndex?_of_maxVal (hbins : 0 < bins) (hfew : bins < 2 ^ 53) (hx : x.isFinite = true)
    (hmin : minVal.isFinite = true) (hmax : maxVal.isFinite = true) (hrange : minVal < maxVal)
    (hwidth : (maxVal - minVal).isFinite = true) (heq : rank x = rank maxVal) :
    binIndex? bins minVal maxVal x = some (bins - 1) := by
  have hrank := (lt_iff.mp hrange).2.2
  have hsame : x - minVal = maxVal - minVal :=
    sub_congr (isNaN_of_isFinite hmax) (isNaN_of_isFinite hx) hmin heq hrank.ne'
  have hapart : Apart (maxVal - minVal).toModel.unpack :=
    ((sub_cases hmax hmin).resolve_left fun h => ((rank_lt_iff hmin hmax).mp hrank).ne' h.1).2
  -- The width is finite and not zero, so it divides itself.
  have hone : (maxVal - minVal) / (maxVal - minVal) = 1 := by
    rcases cases_of_isFinite hwidth with ⟨sign, hzero⟩ | ⟨sign, m, e, hm, hfinite⟩
    · rw [hzero] at hapart
      exact hapart.elim
    · exact div_self_of_finite hfinite
  rw [binIndex?_eq hbins (isNaN_of_isFinite hx), hsame, hone, indexOf_of_one hbins hfew]

/-- **A range that is too wide has all samples in the first bin**: the place of a sample in it is
    zero or no number. -/
theorem binIndex?_of_infinite (hbins : 0 < bins) (hfew : bins < 2 ^ 53) (hx : x.isFinite = true)
    (hmin : minVal.isFinite = true) (hmax : maxVal.isFinite = true)
    (hwidth : (maxVal - minVal).isFinite = false) : binIndex? bins minVal maxVal x = some 0 := by
  -- A difference of finite floats is always a number.
  have hinfinite : ∃ sign, (maxVal - minVal).toModel.unpack = .infinity sign := by
    change (maxVal - minVal).toModel.unpack.isFinite = false at hwidth
    rcases sub_cases hmax hmin with ⟨-, sign, hzero⟩ | ⟨-, hapart⟩
    · rw [hzero] at hwidth
      cases hwidth
    · cases hunpack : (maxVal - minVal).toModel.unpack with
      | infinity sign => exact ⟨sign, rfl⟩
      | zero _ | finite _ _ _ _ =>
        rw [hunpack] at hwidth
        cases hwidth
      | notANumber =>
        rw [hunpack] at hapart
        exact hapart.elim
  obtain ⟨sign, hwidth⟩ := hinfinite
  rw [binIndex?_eq hbins (isNaN_of_isFinite hx)]
  have hquotient : ∀ c, (x - minVal).toModel.unpack.div .binary64 (.infinity sign) = c →
      ((x - minVal) / (maxVal - minVal)).toModel.unpack = (Float.Model.pack c).unpack := by
    rintro c rfl
    rw [← hwidth]
    rfl
  cases hplace : (x - minVal).toModel.unpack with
  | zero s | finite s _ _ _ =>
    have hzero : ((x - minVal) / (maxVal - minVal)).toModel.unpack = .zero (s / sign) := by
      rw [hquotient (.zero (s / sign)) (by rw [hplace]; rfl)]
      exact unpack_pack_zero _
    rw [indexOf_of_zero hbins hfew hzero]
  | infinity s | notANumber =>
    have hnan : ((x - minVal) / (maxVal - minVal)).toModel.unpack = .notANumber := by
      rw [hquotient .notANumber (by rw [hplace]; rfl)]
      rfl
    rw [indexOf_of_isNaN hnan]

/-! ### The counts of a rank alone -/

/-- There is nothing to add for the only rank. -/
theorem addCounts_singleton {part : List Nat} (h : part.length = bins) :
    addCounts bins [part] = part := by
  unfold addCounts
  rw [List.foldl_cons, List.foldl_nil]
  refine List.ext_getElem? fun b => ?_
  rw [List.getElem?_zipWith, List.getElem?_replicate]
  by_cases hb : b < bins
  · rw [if_pos hb, List.getElem?_eq_getElem (h ▸ hb)]
    exact congrArg some (Nat.zero_add _)
  · rw [if_neg hb, List.getElem?_eq_none (by omega)]

/-- How many of the samples are in each bin, as far as a float can count. -/
def saturatedTally (bins : Nat) (minVal maxVal : Float) (samples : List Float) : List Nat :=
  (List.range bins).map fun b =>
    min (samples.countP fun x => binIndex? bins minVal maxVal x == some b) (2 ^ 53)

/-- There is one count for each bin. -/
theorem length_saturatedTally (bins : Nat) (minVal maxVal : Float) (samples : List Float) :
    (saturatedTally bins minVal maxVal samples).length = bins := by
  rw [saturatedTally, List.length_map, List.length_range]

/-- Each count is the number of samples of its bin, up to where a float counts to. -/
theorem getElem?_saturatedTally {b : Nat} (hb : b < bins) (minVal maxVal : Float)
    (samples : List Float) : (saturatedTally bins minVal maxVal samples)[b]? =
      some (min (samples.countP fun x => binIndex? bins minVal maxVal x == some b) (2 ^ 53)) := by
  rw [saturatedTally, List.getElem?_map, List.getElem?_range hb, Option.map_some]

/-- A bin that some sample is in has been counted. -/
theorem one_le_saturatedTally {b : Nat} {samples : List Float} (hb : b < bins)
    (hx : x ∈ samples) (h : binIndex? bins minVal maxVal x = some b) :
    ∃ k, (saturatedTally bins minVal maxVal samples)[b]? = some k ∧ 1 ≤ k := by
  refine ⟨_, getElem?_saturatedTally hb minVal maxVal samples, ?_⟩
  have hpos : 0 < samples.countP fun x => binIndex? bins minVal maxVal x == some b :=
    List.countP_pos_iff.mpr ⟨x, hx, by rw [h]; exact beq_self_eq_true _⟩
  omega

/-- The counts of a field on a rank alone. -/
theorem runAlone_fieldHistogram {m : Mesh} {field : String} {decl : FieldDecl}
    (hdecl : m.schema.get? field = some decl) (hscalar : decl.components = 1)
    (minVal maxVal : Float) (bins : Nat) : (m.fieldHistogram field minVal maxVal bins).run.runAlone
      = .ok (saturatedTally bins minVal maxVal (Block.samplesOf field m.blocks)) := by
  have hparts : ∀ part ∈ [count bins (m.binIndices field decl bins minVal maxVal)],
      part.length = (count bins (m.binIndices field decl bins minVal maxVal)).length := by
    intro part hpart
    rw [List.mem_singleton.mp hpart]
  -- A rank alone gets back what it has sent.
  rw [fieldHistogram_eq hdecl hscalar, Reduction.run_exchange_bind]
  show Reduction.readAnswer _ (.ok [count bins (m.binIndices field decl bins minVal maxVal)]) >>= _
    = _
  rw [Reduction.readAnswer_eq_ok hparts]
  show Except.ok (addCounts bins [(count bins (m.binIndices field decl bins minVal maxVal)).map
    ofFloat]) = _
  rw [addCounts_singleton (by rw [List.length_map, length_count]), ofFloat_count, binIndices,
    flatMap_samples]
  simp only [List.count_filterMap]
  rfl

end Mesh

end MeshExpr
