import MeshExpr.Proofs.Evaluation.Group
import MeshExpr.Proofs.Evaluation.Run
import MeshExpr.Proofs.Mesh.OuterBins

namespace MeshExpr

open Collective FloatOrder FloatForm

/-!
# Histograms over the range of a field

A histogram that is given no bounds takes them from its field. On a rank alone, with finite samples
that are not all equal, it then has a range that holds every sample, and samples at both ends of it.
The least ones are in the first bin. The greatest ones are in the last bin as long as the width of
the range is a finite float; otherwise every sample is in the first bin.

* `Mesh.exists_extremum` — the extremum of finite samples is one of them, and bounds them.
* `Histogram.OverOwnRange` — what the histogram is then.
* `Mesh.runAlone_histogram` — what the filter computes, once the bounds have been found.
* `Mesh.histogram_over_own_range` — and that the filter gives it.
* `Mesh.not_last_of_wide` — a range that is too wide for its width to be a float.
-/

/-- A histogram of finite samples, with bounds that are taken from the samples. -/
structure Histogram.OverOwnRange (h : Histogram) (numBins : Int32) (samples : List Float) :
    Prop where
  numBins_eq : h.numBins = numBins
  length : (h.counts.length : Int) = numBins.toInt
  minVal_mem : h.minVal ∈ samples
  maxVal_mem : h.maxVal ∈ samples
  range : h.minVal < h.maxVal
  bounds : ∀ x ∈ samples, h.minVal ≤ x ∧ x ≤ h.maxVal
  /-- Each count is how many samples are in the bin, or as many as a float can count. -/
  count : ∀ b < h.counts.length, h.counts[b]? = some (min (samples.countP fun x =>
    Mesh.binIndex? h.counts.length h.minVal h.maxVal x == some b) (2 ^ 53))
  /-- The least samples are in the first bin. -/
  least : ∀ x ∈ samples, (x == h.minVal) = true →
    Mesh.binIndex? h.counts.length h.minVal h.maxVal x = some 0
  first : ∃ k, h.counts[0]? = some k ∧ 1 ≤ k
  /-- The greatest samples are in the last bin, if the range has a finite width. -/
  greatest : (h.maxVal - h.minVal).isFinite = true → ∀ x ∈ samples, (x == h.maxVal) = true →
    Mesh.binIndex? h.counts.length h.minVal h.maxVal x = some (h.counts.length - 1)
  last : (h.maxVal - h.minVal).isFinite = true →
    ∃ k, h.counts[h.counts.length - 1]? = some k ∧ 1 ≤ k
  /-- Otherwise all samples are in the first bin. -/
  wide : (h.maxVal - h.minVal).isFinite = false → ∀ x ∈ samples,
    Mesh.binIndex? h.counts.length h.minVal h.maxVal x = some 0

/-! ### A rank alone -/

namespace Distribution

/-- A group of one rank. -/
def alone (m : Mesh) : Distribution := ⟨m.schema, m.state, [m.blocks]⟩

/-- A group of one rank agrees on what its only rank comes to. -/
theorem agree_alone_iff {α : Type} {P : α → Prop} {m : Mesh} {program : Mesh → Collective α} :
    Agree (alone m).ranks P program ↔ P (program m).runAlone := by
  have hrun : runRanks ((alone m).ranks.map program) = some [(program m).runAlone] :=
    runRanks_singleton (program m)
  constructor
  · rintro ⟨a, ha, hP⟩
    obtain rfl : (program m).runAlone = a := by simpa [alone, ranks] using hrun.symm.trans ha
    exact hP
  · intro hP
    exact ⟨_, hrun, hP⟩

end Distribution

namespace Mesh

variable {m : Mesh} {field : String} {decl : FieldDecl}

/-- What the only rank finds is the best of its own candidates. -/
theorem runAlone_extremum (which : Extreme) (hdecl : m.schema.get? field = some decl)
    (hscalar : decl.components = 1) :
    (m.extremum which field).run.runAlone = extremumOf which field (m.candidates field decl) := by
  have hagree := Distribution.agree_alone_iff.mp
    (Distribution.agree_extremum (d := .alone m) which hdecl hscalar)
  have hwhole : (Distribution.alone m).whole = m := by
    unfold Distribution.whole Distribution.alone
    rw [List.flatten_singleton]
  rw [hwhole] at hagree
  exact hagree

/-- The extremum of finite samples is one of them, and none is better. -/
theorem exists_extremum (which : Extreme) (hdecl : m.schema.get? field = some decl)
    (hscalar : decl.components = 1)
    (hfinite : ∀ x ∈ Block.samplesOf field m.blocks, x.isFinite = true)
    (hne : Block.samplesOf field m.blocks ≠ []) :
    ∃ c, (m.extremum which field).run.runAlone = .ok c
      ∧ c.value ∈ Block.samplesOf field m.blocks
      ∧ ∀ x ∈ Block.samplesOf field m.blocks, which.improves x c.value = false := by
  have hvalues : (m.candidates field decl).map Located.value = Block.samplesOf field m.blocks := by
    rw [map_value_candidates, List.filter_eq_self]
    intro x hx
    rw [isNaN_of_isFinite (hfinite x hx)]
    rfl
  rw [runAlone_extremum which hdecl hscalar]
  unfold extremumOf
  cases hbest : which.best (m.candidates field decl) with
  | none =>
    rw [Extreme.best_eq_none hbest] at hvalues
    exact absurd hvalues.symm hne
  | some c =>
    obtain ⟨before, after, hsplit, hbefore, hafter⟩ :=
      Extreme.best_eq_some (numbers_candidates m field decl) hbest
    rw [hsplit] at hvalues
    refine ⟨c, rfl, ?_, fun x hx => ?_⟩
    · rw [← hvalues]
      simp
    · rw [← hvalues] at hx
      obtain ⟨d, hd, rfl⟩ := List.mem_map.mp hx
      -- What stands before it is worse, and what stands behind it is not better.
      rcases List.mem_append.mp hd with hd | hd
      · by_contra hbetter
        rw [Bool.not_eq_false] at hbetter
        have hself := Extreme.improves_trans hbetter (hbefore d hd)
        rw [Extreme.not_improves_self] at hself
        exact absurd hself (by simp)
      · rcases List.mem_cons.mp hd with rfl | hd
        · exact Extreme.not_improves_self which _
        · exact hafter d hd

/-- Between finite floats, not being less is being at least as great. -/
theorem le_of_not_improves {x y : Float} (hx : x.isFinite = true) (hy : y.isFinite = true)
    (h : ¬y < x) : x ≤ y := by
  have hrank : ¬rank y < rank x := fun hlt =>
    h (lt_iff.mpr ⟨isNaN_of_isFinite hy, isNaN_of_isFinite hx, hlt⟩)
  exact le_iff.mpr ⟨isNaN_of_isFinite hx, isNaN_of_isFinite hy, not_lt.mp hrank⟩

/-- The bounds of samples that are not all equal are not equal. -/
theorem lt_of_bounds {samples : List Float} {minVal maxVal : Float}
    (hbounds : ∀ x ∈ samples, minVal ≤ x ∧ x ≤ maxVal) {x y : Float} (hx : x ∈ samples)
    (hy : y ∈ samples) (hdiffer : ¬(x == y) = true) : minVal < maxVal := by
  obtain ⟨hmin, hnumber, hlow⟩ := le_iff.mp (hbounds x hx).1
  obtain ⟨-, hmax, hhigh⟩ := le_iff.mp (hbounds x hx).2
  obtain ⟨-, hnumber', hlow'⟩ := le_iff.mp (hbounds y hy).1
  have hhigh' := (le_iff.mp (hbounds y hy).2).2.2
  refine lt_iff.mpr ⟨hmin, hmax, lt_of_le_of_ne (hlow.trans hhigh) fun heq => hdiffer ?_⟩
  -- If the bounds were equal, so would be all that is between them.
  have hx' : rank x = rank minVal := le_antisymm (heq ▸ hhigh) hlow
  have hy' : rank y = rank minVal := le_antisymm (heq ▸ hhigh') hlow'
  exact beq_iff.mpr ⟨hnumber, hnumber', hx'.trans hy'.symm⟩

/-- What there is to be said of the counts over bounds that are taken from the samples. -/
theorem overOwnRange_of_bounds {samples : List Float} {minVal maxVal : Float} {numBins : Int32}
    {bins : Nat} (hfinite : ∀ x ∈ samples, x.isFinite = true) (hmin : minVal ∈ samples)
    (hmax : maxVal ∈ samples) (hrange : minVal < maxVal)
    (hbounds : ∀ x ∈ samples, minVal ≤ x ∧ x ≤ maxVal)
    (hbins : Filter.binCount? numBins = some bins) :
    (Histogram.mk (saturatedTally bins minVal maxVal samples) minVal maxVal numBins).OverOwnRange
      numBins samples := by
  obtain ⟨⟨hpos, hle⟩, hcast⟩ := Filter.binCount?_eq_some_iff.mp hbins
  have hpos' : 0 < bins := by omega
  have hfew : bins < 2 ^ 53 := by omega
  have hlength := length_saturatedTally bins minVal maxVal samples
  have hmin' := hfinite minVal hmin
  have hmax' := hfinite maxVal hmax
  have hleast : ∀ x ∈ samples, (x == minVal) = true → binIndex? bins minVal maxVal x = some 0 :=
    fun x hx heq => binIndex?_of_minVal hpos' hfew (hfinite x hx) hmin' hmax' hrange
      (beq_iff.mp heq).2.2
  -- Only a range that is not too wide for a float has its maximum in the last bin.
  have hgreatest : (maxVal - minVal).isFinite = true → ∀ x ∈ samples, (x == maxVal) = true →
      binIndex? bins minVal maxVal x = some (bins - 1) :=
    fun hwidth x hx heq => binIndex?_of_maxVal hpos' hfew (hfinite x hx) hmin' hmax' hrange hwidth
      (beq_iff.mp heq).2.2
  have hself : ∀ x ∈ samples, (x == x) = true := fun x hx =>
    beq_iff.mpr ⟨isNaN_of_isFinite (hfinite x hx), isNaN_of_isFinite (hfinite x hx), rfl⟩
  refine ⟨rfl, ?_, hmin, hmax, hrange, hbounds, fun b hb => ?_, ?_, ?_, ?_, ?_, ?_⟩ <;>
    simp only [hlength]
  · exact hcast.symm
  · exact getElem?_saturatedTally (hlength ▸ hb) minVal maxVal samples
  · exact hleast
  · exact one_le_saturatedTally hpos' hmin (hleast minVal hmin (hself minVal hmin))
  · exact hgreatest
  · intro hwidth
    exact one_le_saturatedTally (by omega) hmax (hgreatest hwidth maxVal hmax (hself maxVal hmax))
  · exact fun hwidth x hx =>
      binIndex?_of_infinite hpos' hfew (hfinite x hx) hmin' hmax' hwidth

/-- A bound that is left out, on a rank alone. -/
theorem runAlone_bound {extremum : Reduction Located} {c : Located}
    (h : extremum.run.runAlone = .ok c) :
    (Filter.bound none extremum).run.runAlone = .ok c.value := by
  have hreduction : (Eval.ofReduction extremum).run.runAlone = .ok c := by
    show (extremum.run >>= fun result => .done (result.mapError EvalError.mesh)).runAlone = _
    rw [runAlone_bind, h]
    rfl
  show (Located.value <$> Eval.ofReduction extremum).run.runAlone = _
  rw [ExceptT.run_map, runAlone_map, hreduction]
  rfl

/-- A histogram on a rank alone that looks for both of its bounds, and finds them. -/
theorem runAlone_histogram {least greatest : Located} {inputs : Inputs} {numBins : Int32}
    {bins : Nat} (hdecl : m.schema.get? field = some decl) (hscalar : decl.components = 1)
    (hleast : (m.fieldMin field).run.runAlone = .ok least)
    (hgreatest : (m.fieldMax field).run.runAlone = .ok greatest)
    (hrange : least.value < greatest.value) (hname : inputs.fieldAt? 0 = some field)
    (hbins : Filter.NumBins inputs numBins) (hcount : Filter.binCount? numBins = some bins)
    (hmin : inputs.optional? 2 = none) (hmax : inputs.optional? 3 = none) (history : History)
    (cycleVar : String) (param : Param) :
    (Filter.histogram.compute ⟨some m, history, cycleVar⟩ inputs param).run.runAlone
      = .ok (Histogram.mk (saturatedTally bins least.value greatest.value
          (Block.samplesOf field m.blocks)) least.value greatest.value numBins).toValue := by
  have hcounts : (Eval.ofReduction (m.fieldHistogram field least.value greatest.value
      bins)).run.runAlone = .ok (saturatedTally bins least.value greatest.value
        (Block.samplesOf field m.blocks)) := by
    show ((m.fieldHistogram field least.value greatest.value bins).run
      >>= fun result => .done (result.mapError EvalError.mesh)).runAlone = _
    rw [runAlone_bind, runAlone_fieldHistogram hdecl hscalar]
    rfl
  -- A rank alone is a group of one, for which the checks have been gone through.
  refine Distribution.agree_alone_iff.mp (Distribution.agree_histogram_of_given (d := .alone m)
    (P := (· = _)) hdecl hscalar hname hbins (.omitted hmin) (.omitted hmax) param ?_)
  rw [Distribution.agree_alone_iff, runAlone_run_bind_of_ok (runAlone_bound hgreatest),
    runAlone_run_bind_of_ok (runAlone_bound hleast)]
  simp only [hrange, decide_true, Bool.not_true, Bool.false_eq_true, ↓reduceIte, hcount]
  rw [runAlone_run_bind_of_ok hcounts]
  rfl

/-- **A histogram that takes its bounds from the field** succeeds on a rank alone. -/
theorem histogram_over_own_range (hdecl : m.schema.get? field = some decl)
    (hscalar : decl.components = 1)
    (hfinite : ∀ x ∈ Block.samplesOf field m.blocks, x.isFinite = true)
    (hdiffer : ∃ x ∈ Block.samplesOf field m.blocks, ∃ y ∈ Block.samplesOf field m.blocks,
      ¬(x == y) = true)
    {inputs : Inputs} {numBins : Int32} (hname : inputs.fieldAt? 0 = some field)
    (hbins : Filter.NumBins inputs numBins) (hlow : 2 ≤ numBins.toInt)
    (hhigh : numBins.toInt ≤ 2 ^ 20) (hmin : inputs.optional? 2 = none)
    (hmax : inputs.optional? 3 = none) (history : History) (cycleVar : String) (param : Param) :
    ∃ h : Histogram,
      (Filter.histogram.compute ⟨some m, history, cycleVar⟩ inputs param).run.runAlone
        = .ok h.toValue
      ∧ h.OverOwnRange numBins (Block.samplesOf field m.blocks) := by
  obtain ⟨x, hx, y, hy, hne⟩ := hdiffer
  have hsome := List.ne_nil_of_mem hx
  obtain ⟨least, hleast, hleast_mem, hleast_le⟩ := exists_extremum .min hdecl hscalar hfinite hsome
  obtain ⟨greatest, hgreatest, hgreatest_mem, hle_greatest⟩ :=
    exists_extremum .max hdecl hscalar hfinite hsome
  -- No sample is better than the extremum that was found, and all of them are numbers.
  have hbounds : ∀ x ∈ Block.samplesOf field m.blocks,
      least.value ≤ x ∧ x ≤ greatest.value := by
    intro x hx
    constructor
    · apply le_of_not_improves (hfinite _ hleast_mem) (hfinite x hx)
      exact of_decide_eq_false (hleast_le x hx)
    · apply le_of_not_improves (hfinite x hx) (hfinite _ hgreatest_mem)
      exact of_decide_eq_false (hle_greatest x hx)
  have hrange : least.value < greatest.value := lt_of_bounds hbounds hx hy hne
  have hcount : Filter.binCount? numBins = some numBins.toInt.toNat :=
    Filter.binCount?_eq_some_iff.mpr ⟨⟨by omega, hhigh⟩, by omega⟩
  have hcompute := runAlone_histogram hdecl hscalar hleast hgreatest hrange hname hbins hcount hmin
    hmax history cycleVar param
  exact ⟨_, hcompute,
    overOwnRange_of_bounds hfinite hleast_mem hgreatest_mem hrange hbounds hcount⟩

/-- Two samples of the field `e`. -/
def pair (x y : Float) : Mesh where
  schema := Named.insert ∅ "e" ⟨.vertex, 1⟩
  blocks := [{ vertices := [.zero, .zero], fields := Named.insert ∅ "e" [x, y] }]

/-- Both bounds of the histogram are left out. -/
def twoBins : Inputs := [.fieldRef "e", .int 2, .empty, .empty]

/-- A mesh with the two samples 1 and 2, in two bins. -/
theorem histogram_over_own_range_of_pair : ∃ h : Histogram,
    (Filter.histogram.compute ⟨some (pair 1 2), {}, ""⟩ twoBins .nothing).run.runAlone
        = .ok h.toValue
      ∧ h.OverOwnRange 2 (Block.samplesOf "e" (pair 1 2).blocks) := by
  have hdecl : (pair 1 2).schema.get? "e" = some ⟨.vertex, 1⟩ := by rfl
  have hgiven : twoBins.optional? 1 = some (.int 2) := by rfl
  have hnumber : Value.number? (.int 2) = some (.int 2) := by rfl
  refine histogram_over_own_range hdecl rfl ?_ ?_ (by rfl) (.given hgiven hnumber) ?_ ?_ (by rfl)
    (by rfl) {} "" .nothing
  · decide +kernel
  · decide +kernel
  · decide
  · decide

/-- The width of the range of these samples is not a finite float, so the last bin is empty. -/
theorem not_last_of_wide :
    (∀ x ∈ Block.samplesOf "e" (pair (-1.7e308) 1.7e308).blocks, x.isFinite = true)
    ∧ ¬((-1.7e308 : Float) == 1.7e308) = true
    ∧ (Filter.histogram.compute ⟨some (pair (-1.7e308) 1.7e308), {}, ""⟩
        twoBins .nothing).run.runAlone
      = .ok (Histogram.mk [2, 0] (-1.7e308) 1.7e308 2).toValue := by
  refine ⟨?_, ?_, ?_⟩ <;> decide +kernel

end Mesh

end MeshExpr
