import MeshExpr.Proofs.Evaluation.Alike
import MeshExpr.Proofs.Evaluation.Contribution
import MeshExpr.Proofs.Mesh.Distribution

namespace MeshExpr

open Collective

/-!
# Steps of filters on a group

The steps that the filters over a field are made of, on all ranks of a group at once.

* `Distribution.agree_field` — a group goes on as one from the checks that reductions begin with.
* `Distribution.agree_ofExcept` — steps that need no exchange.
* `Distribution.agree_ofReduction` — steps that are reductions.
* `Distribution.transparent_bound` — the bounds of a histogram.
* `Filter.BoundAt` — what a histogram is given for a bound.
* `Distribution.agree_histogram_of_given` — the checks that a histogram begins with.
-/

/-- What a histogram is given for a bound, if anything. -/
inductive Filter.BoundAt (inputs : Inputs) (slot : Nat) : Option Number → Prop where
  | given {value : Value} {n : Number} (h : inputs.optional? slot = some value)
      (hn : value.number? = some n) : BoundAt inputs slot (some n)
  | omitted (h : inputs.optional? slot = none) : BoundAt inputs slot none

namespace Filter

variable {inputs : Inputs} {slot : Nat} {port : String}

/-- The argument at the port of a bound is read as the bound that is given, if it is. -/
theorem BoundAt.scalar? {given : Option Number} (h : BoundAt inputs slot given) :
    inputs.scalar? slot .histogram port = .ok given := by
  cases h with
  | given h hn => exact Inputs.scalar?_eq_ok_iff.mpr (.inr ⟨_, _, h, hn, rfl⟩)
  | omitted h => exact Inputs.scalar?_eq_ok_iff.mpr (.inl ⟨h, rfl⟩)

/-- The number of bins is read from the argument at its port, or is the default. -/
theorem exists_of_numBins {numBins : Int32} (h : NumBins inputs numBins) :
    ∃ given, inputs.scalar? 1 .histogram "num_bins" = .ok given ∧ (match given with
      | some n => n.toInt32
      | none => defaultBins) = numBins := by
  cases h with
  | given h hn => exact ⟨_, Inputs.scalar?_eq_ok_iff.mpr (.inr ⟨_, _, h, hn, rfl⟩), rfl⟩
  | usual h => exact ⟨_, Inputs.scalar?_eq_ok_iff.mpr (.inl ⟨h, rfl⟩), rfl⟩

end Filter

namespace Distribution

variable {d : Distribution} {history : History} {cycleVar : String} {α : Type}

/-- What the filters of a group see is alike, and like what they see on the one rank that owns all
    blocks. -/
theorem alike_of_mem {m : Mesh} (hm : m ∈ d.ranks) :
    Context.Alike ⟨some m, history, cycleVar⟩ ⟨some d.whole, history, cycleVar⟩ :=
  ⟨.some ⟨schema_of_mem hm, state_of_mem hm⟩, rfl, rfl⟩

/-- The checks that a reduction begins with fail on all ranks with one error, or pass on all of
    them. -/
theorem field_of_mem {m : Mesh} (hm : m ∈ d.ranks) (inputs : Inputs) (slot : Nat) (filter : Filter)
    (port : String) :
    inputs.field ⟨some m, history, cycleVar⟩ slot filter port
      = (inputs.field ⟨some d.whole, history, cycleVar⟩ slot filter port).map
        fun p => (m, p.2) := by
  rcases (alike_of_mem hm).field inputs slot filter port with
    ⟨e, he, he'⟩ | ⟨m', _, field, -, hm', h⟩
  · rw [he, he']
    rfl
  · obtain rfl : m = m' := Option.some.inj (Inputs.field_eq_ok_iff.mp hm').1
    rw [hm', h]
    rfl

/-- A group goes on as one from the checks that reductions begin with. -/
theorem agree_field {P : Except EvalError α → Prop} {inputs : Inputs} {slot : Nat}
    {filter : Filter} {port : String} {f : Mesh × String → Eval α}
    (herror : ∀ e, inputs.field ⟨some d.whole, history, cycleVar⟩ slot filter port = .error e →
      P (.error e))
    (hf : ∀ field decl, inputs.fieldAt? slot = some field →
      inputs.field ⟨some d.whole, history, cycleVar⟩ slot filter port = .ok (d.whole, field) →
      d.schema.get? field = some decl → decl.components = 1 →
      Agree d.ranks P fun m => (f (m, field)).run) :
    Agree d.ranks P fun m =>
      (Eval.ofExcept (inputs.field ⟨some m, history, cycleVar⟩ slot filter port) >>= f).run := by
  have hfield : ∀ m ∈ d.ranks, inputs.field ⟨some m, history, cycleVar⟩ slot filter port
      = (inputs.field ⟨some d.whole, history, cycleVar⟩ slot filter port).map fun p => (m, p.2) :=
    fun m hm => field_of_mem hm inputs slot filter port
  -- What the ranks find is what one process with all blocks finds, except for the mesh.
  cases hwhole : inputs.field ⟨some d.whole, history, cycleVar⟩ slot filter port with
  | error e =>
    refine (Agree.done (herror e hwhole)).congr fun m hm => ?_
    rw [hfield m hm, hwhole]
    rfl
  | ok found =>
    obtain ⟨m', field⟩ := found
    obtain ⟨hm', hname, hscalar⟩ := Inputs.field_eq_ok_iff.mp hwhole
    obtain rfl : d.whole = m' := Option.some.inj hm'
    obtain ⟨decl, hdecl, hone⟩ := Mesh.isScalarField_iff.mp hscalar
    refine (hf field decl hname hwhole hdecl hone).congr fun m hm => ?_
    rw [hfield m hm, hwhole]
    rfl

/-- A step that is the same on all ranks needs no exchange. -/
theorem agree_ofExcept {β : Type} {P : Except EvalError α → Prop} {x : Except EvalError β}
    {f : Mesh → β → Eval α} (herror : ∀ e, x = .error e → P (.error e))
    (hf : ∀ b, x = .ok b → Agree d.ranks P fun m => (f m b).run) :
    Agree d.ranks P fun m => (Eval.ofExcept x >>= f m).run := by
  cases x with
  | error e => exact .done (herror e rfl)
  | ok b => exact hf b rfl

/-- A filter takes the result of a reduction. -/
theorem agree_ofReduction {r : Mesh → Reduction α} {result : Except MeshError α}
    (h : Agree d.ranks (· = result) fun m => (r m).run) :
    Agree d.ranks (· = result.mapError .mesh) fun m => (Eval.ofReduction (r m)).run :=
  h.bind fun _ hresult => .done (congrArg _ hresult)

/-- A filter does not depend on the ranks where its reduction does not. -/
theorem transparent_ofReduction {r : Mesh → Reduction α} (h : d.Transparent fun m => (r m).run) :
    d.Transparent fun m => (Eval.ofReduction (r m)).run :=
  h.bind fun _ => .done _

/-- A bound of a histogram is the given one, or what the search over all ranks finds. -/
theorem transparent_bound (given : Option Number) {extremum : Mesh → Reduction Located}
    (h : d.Transparent fun m => (extremum m).run) :
    d.Transparent fun m => (Filter.bound given (extremum m)).run := by
  cases given with
  | some n => exact .done _
  | none =>
    unfold Filter.bound
    simp only [map_eq_pure_bind]
    exact (transparent_ofReduction h).exceptBind fun _ => .done _

/-! ### The arguments of a filter -/

variable {inputs : Inputs} {field : String} {decl : FieldDecl}

/-- Once its argument names the field, a filter goes on with the field. -/
theorem agree_field_of_name {P : Except EvalError Value → Prop} {filter : Filter} {port : String}
    {f : Mesh × String → Eval Value} (hdecl : d.schema.get? field = some decl)
    (hscalar : decl.components = 1) (hname : inputs.fieldAt? 0 = some field)
    (hf : Agree d.ranks P fun m => (f (m, field)).run) :
    Agree d.ranks P fun m =>
      (Eval.ofExcept (inputs.field ⟨some m, history, cycleVar⟩ 0 filter port) >>= f).run := by
  have hpasses : inputs.field ⟨some d.whole, history, cycleVar⟩ 0 filter port
      = .ok (d.whole, field) :=
    Inputs.field_eq_ok_iff.mpr ⟨rfl, hname, Mesh.isScalarField_iff.mpr ⟨decl, hdecl, hscalar⟩⟩
  refine agree_field (fun e he => ?_) fun name decl' hname' _ _ _ => ?_
  · exact absurd (hpasses.symm.trans he) (by simp)
  · obtain rfl := Option.some.inj (hname.symm.trans hname')
    exact hf

/-- A histogram starts with the checks of its arguments, which need no exchange. -/
theorem agree_histogram_of_given {P : Except EvalError Value → Prop} {numBins : Int32}
    (hdecl : d.schema.get? field = some decl) (hscalar : decl.components = 1)
    (hname : inputs.fieldAt? 0 = some field) (hbins : Filter.NumBins inputs numBins)
    {minGiven maxGiven : Option Number} (hmin : Filter.BoundAt inputs 2 minGiven)
    (hmax : Filter.BoundAt inputs 3 maxGiven) (param : Param)
    (h : Agree d.ranks P fun m => (do
      let maxVal ← Filter.bound maxGiven (m.fieldMax field)
      let minVal ← Filter.bound minGiven (m.fieldMin field)
      if !(minVal < maxVal) then throw (.range .histogram minVal maxVal)
      match Filter.binCount? numBins with
      | none => throw (.invalidBinCount .histogram numBins)
      | some bins =>
        let counts ← Eval.ofReduction (m.fieldHistogram field minVal maxVal bins)
        return (Histogram.mk counts minVal maxVal numBins).toValue : Eval Value).run) :
    Agree d.ranks P fun m =>
      (Filter.histogram.compute ⟨some m, history, cycleVar⟩ inputs param).run := by
  obtain ⟨given, hgiven, rfl⟩ := Filter.exists_of_numBins hbins
  apply agree_field_of_name hdecl hscalar hname
  -- With the arguments in their places, only the bounds and the counts are left to be exchanged.
  rw [hgiven, hmax.scalar?, hmin.scalar?]
  exact h

end Distribution

end MeshExpr
