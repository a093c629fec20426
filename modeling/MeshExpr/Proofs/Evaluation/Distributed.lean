import MeshExpr.Proofs.Evaluation.Group
import MeshExpr.Proofs.Evaluation.Run

namespace MeshExpr

open Collective

/-!
# Evaluation does not see the distribution

A plan without averages has on every rank of a group the value, or fails with the error, that it
has on one rank that owns all blocks. Sums of floats depend on how they are grouped, so averages are
left out; extrema and histograms do not depend on it, as long as the samples can be counted in
floats.

* `Distribution.transparent_fieldHistogram` — histograms of a field.
* `Distribution.transparent_compute` — every filter but the average.
* `Distribution.runRanks_evaluate` — every plan without averages.
-/

namespace Distribution

variable {d : Distribution} {field : String} {decl : FieldDecl} {history : History}
  {cycleVar : String}

/-! ### Reductions -/

/-- If one rank can count all samples, then so can each rank of the group. -/
theorem length_samplesOf_lt (hfew : (d.samples field).length < 2 ^ 53) {blocks : List Block}
    (hblocks : blocks ∈ d.domains) : (Block.samplesOf field blocks).length < 2 ^ 53 := by
  unfold samples at hfew
  rw [Block.samplesOf_flatten] at hfew
  have hmem : Block.samplesOf field blocks ∈ d.domains.map (Block.samplesOf field) :=
    List.mem_map_of_mem hblocks
  have hsub := List.sublist_flatten_of_mem hmem
  exact hsub.length_le.trans_lt hfew

/-- All samples of a group that is gathered on one rank are those of the group, in the same order.
    -/
theorem samples_gathered (d : Distribution) (field : String) :
    d.gathered.samples field = d.samples field := by
  unfold samples gathered
  rw [List.flatten_singleton]

/-- The counts do not depend on the ranks, as none of them is so large that a float cannot count to
    it. -/
theorem transparent_fieldHistogram (hdecl : d.schema.get? field = some decl)
    (hscalar : decl.components = 1) (hfew : (d.samples field).length < 2 ^ 53)
    (minVal maxVal : Float) (bins : Nat) :
    d.Transparent fun m => (m.fieldHistogram field minVal maxVal bins).run := by
  -- The rank that owns all blocks is a group too, and comes to the same tally.
  have hfew' : (d.gathered.samples field).length < 2 ^ 53 := by rwa [samples_gathered]
  have hgathered := agree_fieldHistogram (d := d.gathered) hdecl hscalar
    (fun blocks => length_samplesOf_lt hfew') minVal maxVal bins
  rw [samples_gathered] at hgathered
  have hgroup := agree_fieldHistogram hdecl hscalar (fun blocks => length_samplesOf_lt hfew) minVal
    maxVal bins
  exact transparent_of_agree hgroup hgathered

/-! ### Filters -/

/-- A filter that needs a field and then goes on transparently is transparent. -/
theorem transparent_field {α : Type} {inputs : Inputs} {slot : Nat} {filter : Filter}
    {port : String} {f : Mesh × String → Eval α}
    (hf : ∀ field decl, d.schema.get? field = some decl → decl.components = 1 →
      d.Transparent fun m => (f (m, field)).run) :
    d.Transparent fun m =>
      (Eval.ofExcept (inputs.field ⟨some m, history, cycleVar⟩ slot filter port) >>= f).run := by
  refine agree_field (fun e he => ?_) fun field decl _ hfield hdecl hscalar => ?_ <;> beta_reduce
  · rw [he]
    rfl
  · rw [hfield]
    exact hf field decl hdecl hscalar

/-- A step that is the same on all ranks, and what follows it. -/
theorem transparent_ofExcept {α β : Type} {x : Except EvalError β} {f : Mesh → β → Eval α}
    (hf : ∀ b, d.Transparent fun m => (f m b).run) :
    d.Transparent fun m => (Eval.ofExcept x >>= f m).run :=
  Transparent.exceptBind (Transparent.done x) hf

/-- A histogram does not depend on the ranks. -/
theorem transparent_computeHistogram (hfew : ∀ field, (d.samples field).length < 2 ^ 53)
    (inputs : Inputs) :
    d.Transparent fun m => (Filter.computeHistogram ⟨some m, history, cycleVar⟩ inputs).run := by
  -- The ranks go on only with a field that is declared on all of them.
  refine transparent_field fun field decl hdecl hscalar => ?_
  refine transparent_ofExcept fun numBins => transparent_ofExcept fun givenMax => ?_
  -- The bounds are the same on all ranks, and with them whether the range is good.
  refine (transparent_bound givenMax (transparent_extremum .max hdecl hscalar)).exceptBind
    fun maxVal => transparent_ofExcept fun givenMin => ?_
  refine (transparent_bound givenMin (transparent_extremum .min hdecl hscalar)).exceptBind
    fun minVal => ?_
  dsimp only
  by_cases hrange : minVal < maxVal
  · simp only [hrange, decide_true, Bool.not_true, Bool.false_eq_true, ↓reduceIte]
    split
    · exact .done _
    · have hhistogram := transparent_fieldHistogram hdecl hscalar (hfew field) minVal maxVal
      exact (transparent_ofReduction (hhistogram _)).exceptBind fun _ => .done _
  · simp only [hrange, decide_false, Bool.not_false, ↓reduceIte]
    exact .done _

/-- **Every filter but the average is transparent**, whatever its arguments are. -/
theorem transparent_compute {filter : Filter} (havg : filter ≠ .fieldAvg)
    (hfew : ∀ field, (d.samples field).length < 2 ^ 53) (inputs : Inputs) (param : Param) :
    d.Transparent fun m => (filter.compute ⟨some m, history, cycleVar⟩ inputs param).run := by
  cases filter with
  | fieldAvg => exact absurd rfl havg
  | fieldMin =>
    exact transparent_field fun field decl hdecl hscalar =>
      (transparent_ofReduction (transparent_extremum .min hdecl hscalar)).exceptBind
        fun _ => .done _
  | fieldMax =>
    exact transparent_field fun field decl hdecl hscalar =>
      (transparent_ofReduction (transparent_extremum .max hdecl hscalar)).exceptBind
        fun _ => .done _
  | histogram => exact transparent_computeHistogram hfew inputs
  | cycle =>
    -- All ranks share the state variables.
    refine (Transparent.done (Context.cycle ⟨some d.whole, history, cycleVar⟩)).congr ?_ rfl
    exact fun m hm => congrArg Collective.done (alike_of_mem hm).cycle
  -- The others do not look at the mesh.
  | _ => cases param <;> exact .done _

/-! ### Plans -/

variable {p : Plan}

/-- One node that is no average does not depend on the ranks. -/
theorem transparent_runNode (havg : ∀ node ∈ p.nodes, node.filter ≠ .fieldAvg)
    (hfew : ∀ field, (d.samples field).length < 2 ^ 53) (values : List Value) (id : Nat) :
    d.Transparent fun m => (p.runNode ⟨some m, history, cycleVar⟩ values id).run := by
  unfold Plan.runNode
  cases hnode : p.nodes[id]? with
  | none => exact .done _
  | some node =>
    have hcompute : d.Transparent fun m => (node.filter.compute ⟨some m, history, cycleVar⟩
        (node.inputs.map (Plan.valueAt values)) node.param).run :=
      transparent_compute (havg node (List.mem_of_getElem? hnode)) hfew _ _
    exact (hcompute.adapt _).exceptBind fun _ => .done _

/-- **Evaluation does not see the distribution.** All ranks of a group come to the value of a plan
    without averages, or to the error, that one rank comes to alone if it owns all blocks in the
    order of the ranks. -/
theorem runRanks_evaluate (havg : ∀ node ∈ p.nodes, node.filter ≠ .fieldAvg)
    (hfew : ∀ field, (d.samples field).length < 2 ^ 53) (history : History) (cycleVar : String) :
    runRanks (d.ranks.map fun m => (p.evaluate ⟨some m, history, cycleVar⟩).run)
      = some (List.replicate d.domains.length
          (p.evaluateAlone ⟨some d.whole, history, cycleVar⟩)) := by
  have hplan : d.Transparent fun m => (p.evaluate ⟨some m, history, cycleVar⟩).run :=
    (Transparent.foldlM fun values id _ => transparent_runNode havg hfew values id).exceptBind
      fun _ => .done _
  obtain ⟨_, hrun, rfl⟩ := hplan
  rw [hrun, length_ranks]
  rfl

/-- The histogram of `spectrum` is the same on two ranks as on one that has all blocks. -/
theorem runRanks_evaluate_spectrum :
    (∀ node ∈ Graph.spectrumPlan.nodes, node.filter ≠ .fieldAvg)
      ∧ (∀ field, (twoRanks.samples field).length < 2 ^ 53)
      ∧ runRanks (twoRanks.ranks.map fun m => (Graph.spectrumPlan.evaluate { mesh := some m }).run)
        = some (List.replicate 2
            (Graph.spectrumPlan.evaluateAlone { mesh := some twoRanks.whole })) := by
  have havg : ∀ node ∈ Graph.spectrumPlan.nodes, node.filter ≠ .fieldAvg := by decide
  -- No field has more than a few samples.
  have hfew : ∀ field, (twoRanks.samples field).length < 2 ^ 53 := by
    intro field
    simp only [samples, twoRanks, Mesh.twoRanks, List.map_cons, List.map_nil, Block.samplesOf,
      List.flatten_cons, List.flatten_nil, List.cons_append, List.nil_append, List.append_nil,
      List.flatMap_cons, List.flatMap_nil, Named.get?_insert]
    split <;> simp
  exact ⟨havg, hfew, runRanks_evaluate havg hfew .empty Mesh.cycleName⟩

end Distribution

end MeshExpr
