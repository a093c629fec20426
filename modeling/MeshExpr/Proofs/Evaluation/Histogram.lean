import MeshExpr.Proofs.Evaluation.Group

namespace MeshExpr

open Collective

/-!
# Histograms over all ranks are exact

A histogram of a group counts every sample that is a number once, in its bin, and nothing else,
however the samples are spread over ranks and blocks. What the filter returns is such a histogram
over a range that is not empty.

* `Value.Counts` — what a histogram of a list of samples is.
* `Distribution.HistogramsAreExact` — what is to be said of the histograms of a group.
* `Distribution.histograms_of_ranks` — and that it is so.
-/

/-- A value is a histogram of samples, with its parameters attached. -/
structure Value.Counts (v : Value) (h : Histogram) (samples : List Float) : Prop where
  payload : v.payload = .histogram h
  range : h.minVal < h.maxVal
  minVal_number : h.minVal.isNaN = false
  maxVal_number : h.maxVal.isNaN = false
  numBins_pos : 1 ≤ h.numBins.toInt
  numBins_le : h.numBins.toInt ≤ 2 ^ 20
  length : (h.counts.length : Int) = h.numBins.toInt
  tallies : Mesh.Tallies h.counts.length h.minVal h.maxVal samples h.counts
  total : h.total = samples.countP fun x => !x.isNaN
  minVal_attr : v.attr? "min_val" = some (.number (.float h.minVal))
  maxVal_attr : v.attr? "max_val" = some (.number (.float h.maxVal))
  numBins_attr : v.attr? "num_bins" = some (.number (.int h.numBins))

namespace Filter

variable {samples : List Float} {bins : Nat} {numBins : Int32} {minVal maxVal : Float}

/-- What the filter makes of the counts of a field. -/
theorem counts_toValue (hbins : binCount? numBins = some bins) (hrange : minVal < maxVal)
    (samples : List Float) :
    (Histogram.mk (Mesh.tally bins minVal maxVal samples) minVal maxVal numBins).toValue.Counts
      ⟨Mesh.tally bins minVal maxVal samples, minVal, maxVal, numBins⟩ samples := by
  obtain ⟨⟨hpos, hle⟩, hcast⟩ := binCount?_eq_some_iff.mp hbins
  obtain ⟨hmin, hmax, -⟩ := FloatOrder.lt_iff.mp hrange
  -- A good number of bins is at least one.
  have hbins' : 0 < bins := by omega
  have htallies := Mesh.tallies_tally hbins' minVal maxVal samples
  have hlength := htallies.length
  refine ⟨rfl, hrange, hmin, hmax, hpos, hle, ?_, ?_, ?_, ?_, ?_, ?_⟩
  · rw [hcast, hlength]
  · rw [hlength]
    exact htallies
  · rw [Histogram.total, ← List.sum_eq_foldl, htallies.sum]
  all_goals
    simp [Histogram.toValue, Value.attr?, Value.withAttr, Named.get?_insert, minValAttr, maxValAttr,
      numBinsAttr]

end Filter

namespace Distribution

/-- All ranks of the group come to the counts. -/
def HistogramIs (d : Distribution) (field : String) (minVal maxVal : Float) (bins : Nat)
    (counts : List Nat) : Prop :=
  runRanks (d.ranks.map fun m => (m.fieldHistogram field minVal maxVal bins).run)
    = some (List.replicate d.domains.length (.ok counts))

/-- No rank has so many samples of a field that a float cannot count them. -/
def Countable (d : Distribution) (field : String) : Prop :=
  ∀ blocks ∈ d.domains, (Block.samplesOf field blocks).length < 2 ^ 53

/-- If the filter gives a value, then its argument has named the field, and the value is a histogram
    of all samples of the field. -/
def CountsIfOk (d : Distribution) (field : String) (inputs : Inputs)
    (result : Except EvalError Value) : Prop :=
  ∀ v, result = .ok v → inputs.fieldAt? 0 = some field ∧ ∃ h, v.Counts h (d.samples field)

/-- The histograms of a field of a group. -/
structure HistogramsAreExact (d : Distribution) (field : String) : Prop where
  /-- Every number has a bin, whatever the bounds are. -/
  bin : ∀ bins minVal maxVal x, 0 < bins → x.isNaN = false →
    ∃ b < bins, Mesh.binIndex? bins minVal maxVal x = some b
  /-- Every rank comes to the counts of all samples, and so does every rank of any other group that
      has the same samples, on whatever ranks and in whatever blocks. -/
  counts : ∀ minVal maxVal bins, 0 < bins → ∃ counts,
    Mesh.Tallies bins minVal maxVal (d.samples field) counts
      ∧ ∀ d' : Distribution, (∃ decl, d'.schema.get? field = some decl ∧ decl.components = 1) →
        d'.Countable field → (d'.samples field).Perm (d.samples field) →
        d'.HistogramIs field minVal maxVal bins counts
  /-- If the filter is given no other field, then all ranks come to one result, and if this is a
      value, it is a histogram of all samples. -/
  filter : ∀ history cycleVar inputs param,
    (∀ name, Inputs.fieldAt? inputs 0 = some name → name = field) → ∃ result,
      runRanks (d.ranks.map fun m =>
          (Filter.histogram.compute ⟨some m, history, cycleVar⟩ inputs param).run)
        = some (List.replicate d.domains.length result)
      ∧ d.CountsIfOk field inputs result

variable {d : Distribution} {field : String}

/-- An error is no value, so nothing is asked of it. -/
theorem countsIfOk_error {inputs : Inputs} (e : EvalError) : d.CountsIfOk field inputs (.error e) :=
  fun _ hv => absurd hv (by simp)

/-- All ranks come to one result, step by step: the arguments are the same, a bound that is left out
    is an extremum, and the counts are those of all samples. -/
theorem agree_computeHistogram (hfew : d.Countable field) (history : History) (cycleVar : String)
    {inputs : Inputs} (hname : ∀ name, inputs.fieldAt? 0 = some name → name = field) :
    Agree d.ranks (d.CountsIfOk field inputs) fun m =>
      (Filter.computeHistogram ⟨some m, history, cycleVar⟩ inputs).run := by
  refine agree_field (fun e _ => countsIfOk_error e) fun name decl hslot _ hdecl hscalar => ?_
  obtain rfl := hname name hslot
  refine agree_ofExcept (fun e _ => countsIfOk_error e) fun numBins _ => ?_
  -- A bound that is left out is an extremum, on which all ranks agree.
  refine agree_ofExcept (fun e _ => countsIfOk_error e) fun givenMax _ => ?_
  refine Agree.exceptBind (transparent_bound givenMax (transparent_extremum .max hdecl hscalar))
    (fun e _ => countsIfOk_error e) fun maxVal _ => ?_
  refine agree_ofExcept (fun e _ => countsIfOk_error e) fun givenMin _ => ?_
  refine Agree.exceptBind (transparent_bound givenMin (transparent_extremum .min hdecl hscalar))
    (fun e _ => countsIfOk_error e) fun minVal _ => ?_
  dsimp only
  by_cases hrange : minVal < maxVal
  · simp only [hrange, decide_true, Bool.not_true, Bool.false_eq_true, ↓reduceIte]
    split
    · exact .done (countsIfOk_error _)
    · rename_i bins hbins
      have hcounts := agree_fieldHistogram hdecl hscalar hfew minVal maxVal bins
      refine Agree.exceptBind (agree_ofReduction hcounts) (fun e _ => countsIfOk_error e)
        fun counts hresult => .done fun v hv => ⟨hslot, ?_⟩
      obtain rfl := Except.ok.inj hresult
      obtain rfl := Except.ok.inj hv
      exact ⟨_, Filter.counts_toValue hbins hrange _⟩
  · simp only [hrange, decide_false, Bool.not_false, ↓reduceIte]
    exact .done (countsIfOk_error _)

/-- **Histograms over all ranks are exact.** They lose no sample and invent none, wherever the
    samples are. -/
theorem histograms_of_ranks (d : Distribution) {field : String} (hfew : d.Countable field) :
    d.HistogramsAreExact field where
  bin _ _ _ _ hbins hnumber := Mesh.exists_binIndex? hbins hnumber
  counts minVal maxVal bins hbins := by
    refine ⟨_, Mesh.tallies_tally hbins minVal maxVal _, fun d' hd' hfew' hperm => ?_⟩
    obtain ⟨decl, hdecl, hscalar⟩ := hd'
    obtain ⟨_, hrun, rfl⟩ := agree_fieldHistogram hdecl hscalar hfew' minVal maxVal bins
    rw [length_ranks, Mesh.tally_eq_of_perm hperm] at hrun
    exact hrun
  filter history cycleVar inputs param hname := by
    obtain ⟨result, hrun, hresult⟩ := agree_computeHistogram hfew history cycleVar hname
    rw [length_ranks] at hrun
    exact ⟨result, hrun, hresult⟩

/-- Two ranks with three samples, one of which is no number. -/
theorem histograms_of_twoRanks : twoRanks.Countable "e" ∧ twoRanks.HistogramsAreExact "e" := by
  have hfew : twoRanks.Countable "e" := by
    unfold Countable
    decide +kernel
  exact ⟨hfew, histograms_of_ranks twoRanks hfew⟩

/-- The sample that is no number is in no bin, and both fives are in the first one. -/
example : twoRanks.HistogramIs "e" 5 7 2 [2, 1] := by
  unfold HistogramIs
  decide +kernel

end Distribution

end MeshExpr
