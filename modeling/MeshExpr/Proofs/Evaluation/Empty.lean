import MeshExpr.Proofs.Evaluation.Group
import MeshExpr.Proofs.Mesh.Average

namespace MeshExpr

open Collective

/-!
# Fields without samples

Extrema and averages of a field that has no samples on any rank are errors, and all ranks report the
same one. The counts of a histogram do not tell such a field from any other: they are zero, and a
histogram over bounds that it is given is one of zeros. Only where a bound is left out does the
search for it fail.

* `Distribution.ReducesEmpty` — what becomes of a field without samples, reduction by reduction.
* `Distribution.reducesEmpty_of_samples` — and that it is so.
-/

namespace Distribution

variable {d : Distribution} {field : String} {decl : FieldDecl}

/-- What becomes of a field without samples on all ranks of a group. -/
structure ReducesEmpty (d : Distribution) (field : String) : Prop where
  extremum : ∀ which, Agree d.ranks (· = .error (.emptyField field)) fun m =>
    (m.extremum which field).run
  average : Agree d.ranks (· = .error (.emptyField field)) fun m => (m.fieldAvg field).run
  /-- The counts are no error. -/
  histogram : ∀ minVal maxVal bins, Agree d.ranks (· = .ok (List.replicate bins 0)) fun m =>
    (m.fieldHistogram field minVal maxVal bins).run
  /-- The filters report the error of their reduction. -/
  filters : ∀ filter ∈ [Filter.fieldMin, .fieldMax, .fieldAvg], ∀ history cycleVar inputs param,
    Inputs.fieldAt? inputs 0 = some field →
    Agree d.ranks (· = .error (.mesh (.emptyField field))) fun m =>
      (filter.compute ⟨some m, history, cycleVar⟩ inputs param).run
  /-- A histogram fails if it has to look for a bound. -/
  omitted : ∀ history cycleVar inputs param numBins minVal maxVal,
    Inputs.fieldAt? inputs 0 = some field → Filter.NumBins inputs numBins →
    Filter.BoundAt inputs 2 minVal → Filter.BoundAt inputs 3 maxVal →
    minVal = none ∨ maxVal = none →
    Agree d.ranks (· = .error (.mesh (.emptyField field))) fun m =>
      (Filter.histogram.compute ⟨some m, history, cycleVar⟩ inputs param).run
  /-- Otherwise it is one of zeros. -/
  given : ∀ history cycleVar inputs param numBins (minVal maxVal : Number) bins,
    Inputs.fieldAt? inputs 0 = some field → Filter.NumBins inputs numBins →
    Filter.BoundAt inputs 2 (some minVal) → Filter.BoundAt inputs 3 (some maxVal) →
    minVal.toFloat < maxVal.toFloat → Filter.binCount? numBins = some bins →
    Agree d.ranks (· = .ok (Histogram.mk (List.replicate bins 0) minVal.toFloat maxVal.toFloat
        numBins).toValue) fun m =>
      (Filter.histogram.compute ⟨some m, history, cycleVar⟩ inputs param).run

/-! ### Reductions -/

/-- Without samples there is no extremum, and all ranks agree on that. -/
theorem agree_extremum_of_empty (which : Extreme) (hdecl : d.schema.get? field = some decl)
    (hscalar : decl.components = 1) (hempty : d.samples field = []) :
    Agree d.ranks (· = .error (.emptyField field)) fun m => (m.extremum which field).run := by
  have hcandidates : d.whole.candidates field decl = [] := by
    apply List.map_eq_nil_iff.mp
    rw [Mesh.map_value_candidates, show Block.samplesOf field d.whole.blocks = [] from hempty]
    rfl
  have hagree := agree_extremum which hdecl hscalar
  rw [hcandidates] at hagree
  exact hagree

/-- Without samples there is no average. -/
theorem agree_fieldAvg_of_empty (hdecl : d.schema.get? field = some decl)
    (hscalar : decl.components = 1) (hempty : d.samples field = []) :
    Agree d.ranks (· = .error (.emptyField field)) fun m => (m.fieldAvg field).run := by
  have hfew : (d.samples field).length < 2 ^ 53 := by
    rw [hempty]
    decide
  have haverage := averageIs_averageOf hdecl hscalar hfew
  rw [averageOf, if_pos hempty] at haverage
  exact ⟨_, length_ranks (d := d) ▸ haverage, rfl⟩

/-- Without samples there still is a histogram: all of its bins are empty. -/
theorem agree_fieldHistogram_of_empty (hdecl : d.schema.get? field = some decl)
    (hscalar : decl.components = 1) (hempty : d.samples field = []) (minVal maxVal : Float)
    (bins : Nat) : Agree d.ranks (· = .ok (List.replicate bins 0)) fun m =>
      (m.fieldHistogram field minVal maxVal bins).run := by
  have hfew : ∀ blocks ∈ d.domains, (Block.samplesOf field blocks).length < 2 ^ 53 := by
    intro blocks hblocks
    -- No rank has a sample if the group has none.
    have hpart : Block.samplesOf field blocks = [] := by
      rw [samples_eq_flatten] at hempty
      exact List.flatten_eq_nil_iff.mp hempty _ (List.mem_map_of_mem hblocks)
    rw [hpart]
    decide
  have hcounts := agree_fieldHistogram hdecl hscalar hfew minVal maxVal bins
  have htally : Mesh.tally bins minVal maxVal (d.samples field) = List.replicate bins 0 := by
    unfold Mesh.tally
    rw [hempty]
    simp
  rw [htally] at hcounts
  exact hcounts

/-! ### Filters -/

variable {history : History} {cycleVar : String} {inputs : Inputs}

/-- A step that fails on all ranks ends the group. -/
theorem agree_error_bind {α β : Type} {e : EvalError} {program : Mesh → Eval α}
    {f : Mesh → α → Eval β} (h : Agree d.ranks (· = .error e) fun m => (program m).run) :
    Agree d.ranks (· = .error e) fun m => (program m >>= f m).run :=
  h.exceptBind (fun _ he => congrArg _ (Except.error.inj he)) fun _ ha => absurd ha (by simp)

/-- A filter reports the error of its reduction. -/
theorem agree_reduction_error {α β : Type} {e : MeshError} {r : Mesh → Reduction α}
    {f : Mesh → α → Eval β} (h : Agree d.ranks (· = .error e) fun m => (r m).run) :
    Agree d.ranks (· = .error (.mesh e)) fun m => (Eval.ofReduction (r m) >>= f m).run :=
  agree_error_bind (agree_ofReduction h)

/-- The search for a bound reports it too. -/
theorem agree_bound_error {α : Type} {e : MeshError} {extremum : Mesh → Reduction Located}
    {f : Mesh → Float → Eval α} (h : Agree d.ranks (· = .error e) fun m => (extremum m).run) :
    Agree d.ranks (· = .error (.mesh e)) fun m => (Filter.bound none (extremum m) >>= f m).run := by
  apply agree_error_bind
  unfold Filter.bound
  simp only [map_eq_pure_bind]
  exact agree_reduction_error h

/-- The filters over a field report the error of their reduction. -/
theorem agree_compute_of_empty (hdecl : d.schema.get? field = some decl)
    (hscalar : decl.components = 1) (hempty : d.samples field = [])
    (hname : inputs.fieldAt? 0 = some field) (param : Param) {filter : Filter}
    (hfilter : filter ∈ [Filter.fieldMin, .fieldMax, .fieldAvg]) :
    Agree d.ranks (· = .error (.mesh (.emptyField field))) fun m =>
      (filter.compute ⟨some m, history, cycleVar⟩ inputs param).run := by
  simp only [List.mem_cons, List.not_mem_nil, or_false] at hfilter
  obtain rfl | rfl | rfl := hfilter
  · apply agree_field_of_name hdecl hscalar hname
    exact agree_reduction_error (agree_extremum_of_empty .min hdecl hscalar hempty)
  · apply agree_field_of_name hdecl hscalar hname
    exact agree_reduction_error (agree_extremum_of_empty .max hdecl hscalar hempty)
  · apply agree_field_of_name hdecl hscalar hname
    exact agree_reduction_error (agree_fieldAvg_of_empty hdecl hscalar hempty)

/-- Where a bound is left out, it would have to be an extremum, so the filter fails. -/
theorem agree_histogram_omitted {numBins : Int32} (hdecl : d.schema.get? field = some decl)
    (hscalar : decl.components = 1) (hempty : d.samples field = [])
    (hname : inputs.fieldAt? 0 = some field) (hbins : Filter.NumBins inputs numBins)
    {minGiven maxGiven : Option Number} (hmin : Filter.BoundAt inputs 2 minGiven)
    (hmax : Filter.BoundAt inputs 3 maxGiven) (homitted : minGiven = none ∨ maxGiven = none)
    (param : Param) :
    Agree d.ranks (· = .error (.mesh (.emptyField field))) fun m =>
      (Filter.histogram.compute ⟨some m, history, cycleVar⟩ inputs param).run := by
  apply agree_histogram_of_given hdecl hscalar hname hbins hmin hmax param
  -- The upper bound is searched for first, if it is left out.
  cases maxGiven with
  | none => exact agree_bound_error (agree_extremum_of_empty .max hdecl hscalar hempty)
  | some maxVal =>
    obtain rfl : minGiven = none := homitted.resolve_right (by simp)
    exact agree_bound_error (agree_extremum_of_empty .min hdecl hscalar hempty)

/-- Where both bounds are given, no extremum is asked for, and the filter counts nothing. -/
theorem agree_histogram_given {numBins : Int32} {minVal maxVal : Number} {bins : Nat}
    (hdecl : d.schema.get? field = some decl) (hscalar : decl.components = 1)
    (hempty : d.samples field = []) (hname : inputs.fieldAt? 0 = some field)
    (hbins : Filter.NumBins inputs numBins) (hmin : Filter.BoundAt inputs 2 (some minVal))
    (hmax : Filter.BoundAt inputs 3 (some maxVal)) (hrange : minVal.toFloat < maxVal.toFloat)
    (hcount : Filter.binCount? numBins = some bins) (param : Param) :
    Agree d.ranks (· = .ok (Histogram.mk (List.replicate bins 0) minVal.toFloat maxVal.toFloat
        numBins).toValue) fun m =>
      (Filter.histogram.compute ⟨some m, history, cycleVar⟩ inputs param).run := by
  apply agree_histogram_of_given hdecl hscalar hname hbins hmin hmax param
  have hcounts := agree_ofReduction
    (agree_fieldHistogram_of_empty hdecl hscalar hempty minVal.toFloat maxVal.toFloat bins)
  have hbound : ∀ (n : Number) (extremum : Reduction Located),
      Filter.bound (some n) extremum = pure n.toFloat := fun _ _ => rfl
  simp only [hbound, pure_bind, hrange, decide_true, Bool.not_true, Bool.false_eq_true, ↓reduceIte,
    hcount]
  -- Only the counts remain to be exchanged, and they are all zero.
  refine hcounts.exceptBind (fun e he => ?_) fun counts hresult => .done ?_
  · cases he
  · obtain rfl := Except.ok.inj hresult
    rfl

/-- **A field without samples is an error for extrema and averages**, and no error for the counts of
    a histogram. -/
theorem reducesEmpty_of_samples (hdecl : d.schema.get? field = some decl)
    (hscalar : decl.components = 1) (hempty : d.samples field = []) : d.ReducesEmpty field where
  extremum which := agree_extremum_of_empty which hdecl hscalar hempty
  average := agree_fieldAvg_of_empty hdecl hscalar hempty
  histogram := agree_fieldHistogram_of_empty hdecl hscalar hempty
  filters _ hfilter _ _ _ param hname :=
    agree_compute_of_empty hdecl hscalar hempty hname param hfilter
  omitted _ _ _ param _ _ _ hname hbins hmin hmax homitted :=
    agree_histogram_omitted hdecl hscalar hempty hname hbins hmin hmax homitted param
  given _ _ _ param _ _ _ _ hname hbins hmin hmax hrange hcount :=
    agree_histogram_given hdecl hscalar hempty hname hbins hmin hmax hrange hcount param

/-- A group whose ranks have no blocks. -/
def unsampled (ranks : Nat) : Distribution :=
  ⟨(∅ : Named FieldDecl).insert "e" ⟨.vertex, 1⟩, ∅, List.replicate ranks []⟩

/-- A group of two ranks that declare a field and have no samples of it. -/
theorem reducesEmpty_unsampled :
    (unsampled 2).samples "e" = [] ∧ (unsampled 2).ReducesEmpty "e" := by
  have hdecl : (unsampled 2).schema.get? "e" = some ⟨.vertex, 1⟩ := by rfl
  exact ⟨by rfl, reducesEmpty_of_samples hdecl rfl (by rfl)⟩

/-- Unlike the other reductions, the counts of a histogram are no error without samples. -/
theorem histogram_unsampled_isOk : (unsampled 1).samples "e" = [] ∧ (0 : Float) < 1
    ∧ ¬Agree (unsampled 1).ranks (· = .error (.emptyField "e")) fun m =>
      (m.fieldHistogram "e" 0 1 4).run := by
  refine ⟨by rfl, by decide +kernel, ?_⟩
  rintro ⟨result, hrun, rfl⟩
  have hzeros : runRanks ((unsampled 1).ranks.map fun m => (m.fieldHistogram "e" 0 1 4).run)
      = some [.ok [0, 0, 0, 0]] := by decide +kernel
  exact absurd (hzeros.symm.trans hrun) (by simp [unsampled, ranks])

end Distribution

end MeshExpr
