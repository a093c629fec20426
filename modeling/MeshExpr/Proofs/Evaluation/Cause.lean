import MeshExpr.Eval.Plan
import MeshExpr.Proofs.Collective.Partner
import MeshExpr.Proofs.Evaluation.Arguments
import MeshExpr.Proofs.Mesh.Reduction

namespace MeshExpr

open Collective

/-!
# Why filters fail

Each error of a filter has a cause in what the filter has been given: its parameter, its arguments,
the mesh, the history, or the answer of an exchange. Which answers there can be is left open: the
causes are those for the answers that are allowed.

* `Filter.Cause` — the causes, with one constructor for each kind of error.
* `Mesh.extremum_fails` and its like — a reduction over a field with one component fails for want of
  samples or because of an exchange.
* `Filter.compute_fails` — every error of a filter has a cause.
* `Plan.evaluate_fails` — every error of a plan is one of a node of the plan.
-/

/-- The kind of a parameter. -/
def Param.kind? : Param → Option ParamKind
  | .nothing => none
  | .name _ => some .name
  | .int _ => some .int
  | .float _ => some .float
  | .op _ => some .operator

/-- The kind of the parameter that a filter wants. -/
def ParamSpec.kind? : ParamSpec → Option ParamKind
  | .nothing => none
  | .name => some .name
  | .int => some .int
  | .float => some .float
  | .op => some .operator

namespace Filter

/-- The causes for which a filter fails with an error, when the exchanges answer with what is
    allowed. -/
inductive Cause (filter : Filter) (allowed : Answer → Prop) (ctx : Context) (inputs : Inputs)
    (param : Param) : EvalError → Prop where
  /-- The parameter is not of the kind that the filter wants. -/
  | param {kind : ParamKind} (hkind : filter.paramSpec.kind? = some kind)
      (h : param.kind? ≠ some kind) :
      Cause filter allowed ctx inputs param (.paramKindMismatch filter kind)
  /-- The argument of a port that needs one is missing or empty. -/
  | notSupplied {slot : Nat} {port : Port} (hport : filter.ports[slot]? = some port)
      (hoptional : port.optional = false) (h : inputs.optional? slot = none) :
      Cause filter allowed ctx inputs param (.typeMismatch filter (.notSupplied port.name))
  /-- An argument is of the wrong kind. -/
  | mismatch {m : Mismatch} (h : ∀ port, m ≠ .notSupplied port) :
      Cause filter allowed ctx inputs param (.typeMismatch filter m)
  | unsupportedOperator (op : Operator) :
      Cause filter allowed ctx inputs param (.unsupportedOperator op)
  | divisionByZero : Cause filter allowed ctx inputs param .divisionByZero
  | integerOverflow (a b : Int32) (op : Operator) :
      Cause filter allowed ctx inputs param (.integerOverflow a op b)
  /-- There is nothing to be read under a name. -/
  | lookUp {name : String} {e : EvalError} (hparam : param = .name name)
      (h : ctx.lookUp name = .error e) : Cause filter allowed ctx inputs param e
  | missingDataset (h : ctx.mesh = none) :
      Cause filter allowed ctx inputs param (.missingDataset filter)
  | unknownField {mesh : Mesh} {field : String} (hmesh : ctx.mesh = some mesh)
      (h : mesh.hasField field = false) :
      Cause filter allowed ctx inputs param (.unknownField filter field mesh.fieldNames)
  | nonScalarField {mesh : Mesh} {field : String} (hmesh : ctx.mesh = some mesh)
      (h : mesh.isScalarField field = false) :
      Cause filter allowed ctx inputs param (.nonScalarField filter field)
  | range {minVal maxVal : Float} (h : ¬minVal < maxVal) :
      Cause filter allowed ctx inputs param (.range filter minVal maxVal)
  | binCount {bins : Int32} (h : binCount? bins = none) :
      Cause filter allowed ctx inputs param (.invalidBinCount filter bins)
  /-- The only argument has no position attached. -/
  | missingPosition : Cause filter allowed ctx inputs param (.missingAttribute filter positionAttr)
  | missingStateVar {mesh : Mesh} (hmesh : ctx.mesh = some mesh)
      (h : mesh.stateVar? ctx.cycleVar = none) :
      Cause filter allowed ctx inputs param (.missingStateVar filter ctx.cycleVar)
  | textStateVar {mesh : Mesh} {text : String} (hmesh : ctx.mesh = some mesh)
      (h : mesh.stateVar? ctx.cycleVar = some (.text text)) :
      Cause filter allowed ctx inputs param (.nonNumericStateVar filter ctx.cycleVar)
  /-- No rank has a sample that counts. -/
  | emptyField (field : String) : Cause filter allowed ctx inputs param (.mesh (.emptyField field))
  /-- An exchange has answered with a part of the wrong width. -/
  | width (expected given : Nat) :
      Cause filter allowed ctx inputs param (.mesh (.communication (.width expected given)))
  /-- An exchange has answered with the error itself. -/
  | exchange {error : MeshError} (h : allowed (.error error)) :
      Cause filter allowed ctx inputs param (.mesh error)

end Filter

/-! ### Reductions -/

/-- A reduction of a field with one component fails in no other way than these, when an exchange may
    answer with what is allowed. -/
inductive MeshError.OfReduction (allowed : Answer → Prop) : MeshError → Prop where
  | emptyField (field : String) : OfReduction allowed (.emptyField field)
  | width (expected given : Nat) : OfReduction allowed (.communication (.width expected given))
  | exchange {error : MeshError} (h : allowed (.error error)) : OfReduction allowed error

section Reductions

variable {allowed : Answer → Prop}

/-- An exchange fails with an error that it was answered with, or at a part of another width. -/
theorem Reduction.exchange_fails (sent : List Float) :
    Fails allowed (MeshError.OfReduction allowed) (Reduction.exchange sent) := by
  refine .exchange fun answer hanswer => .done fun e he => ?_
  cases answer with
  | error error => exact Except.error.inj he ▸ .exchange hanswer
  | ok parts =>
    obtain ⟨part, -, hpart⟩ := exists_of_mapM_eq_error he
    unfold expectWidth at hpart
    split at hpart
    · exact absurd hpart (by simp)
    · exact Except.error.inj hpart ▸ .width ..

namespace Mesh

variable {m : Mesh} {field : String}

/-- There may be no sample that is a number. -/
theorem extremum_fails (h : m.isScalarField field = true) (which : Extreme) :
    Fails allowed (MeshError.OfReduction allowed) (m.extremum which field) := by
  obtain ⟨decl, hdecl, hone⟩ := isScalarField_iff.mp h
  unfold extremum
  rw [scalarDecl_eq_ok hdecl hone]
  refine (Fails.ok decl).bind fun decl => ?_
  refine (Reduction.exchange_fails _).bind fun parts => ?_
  cases which.best (parts.filterMap Located.decode) with
  | none => exact .throw (.emptyField field)
  | some c => exact .ok c

/-- There may be no sample at all. -/
theorem fieldAvg_fails (h : m.isScalarField field = true) :
    Fails allowed (MeshError.OfReduction allowed) (m.fieldAvg field) := by
  obtain ⟨decl, hdecl, hone⟩ := isScalarField_iff.mp h
  unfold fieldAvg
  rw [scalarDecl_eq_ok hdecl hone]
  refine (Fails.ok decl).bind fun decl => ?_
  refine (Reduction.exchange_fails _).bind fun parts => ?_
  dsimp only
  split
  · exact .ok _
  · exact .throw (.emptyField field)

/-- A histogram needs no samples, so only its exchange can fail. -/
theorem fieldHistogram_fails (h : m.isScalarField field = true) (minVal maxVal : Float)
    (bins : Nat) : Fails allowed (MeshError.OfReduction allowed)
      (m.fieldHistogram field minVal maxVal bins) := by
  obtain ⟨decl, hdecl, hone⟩ := isScalarField_iff.mp h
  unfold fieldHistogram
  rw [scalarDecl_eq_ok hdecl hone]
  refine (Fails.ok decl).bind fun decl => ?_
  exact (Reduction.exchange_fails _).bind fun parts => .ok _

end Mesh

end Reductions

/-! ### Steps of filters -/

namespace Filter

variable {filter : Filter} {ctx : Context} {inputs : Inputs} {param : Param}
  {allowed : Answer → Prop}

/-- A step that needs no exchange. -/
theorem fails_ofExcept {α : Type} {P : EvalError → Prop} {x : Except EvalError α}
    (h : ∀ e, x = .error e → P e) : Fails allowed P (Eval.ofExcept x) :=
  .done h

/-- Such a step, and what follows it. -/
theorem fails_ofExcept_bind {α β : Type} {P : EvalError → Prop} {x : Except EvalError α}
    {f : α → Eval β} (h : Fails allowed P (Eval.ofExcept x))
    (hf : ∀ a, x = .ok a → Fails allowed P (f a)) : Fails allowed P (Eval.ofExcept x >>= f) := by
  cases x with
  | error e =>
    have hcause : P e := by
      cases h with
      | done h => exact h e rfl
    exact .throw hcause
  | ok a => exact hf a rfl

/-- Two steps without an exchange are one. -/
theorem ofExcept_bind {α β : Type} (x : Except EvalError α) (f : α → Except EvalError β) :
    Eval.ofExcept (x >>= f) = Eval.ofExcept x >>= fun a => Eval.ofExcept (f a) := by
  cases x <;> rfl

/-- A reduction, whose errors are those of the mesh. -/
theorem fails_ofReduction {α : Type} {r : Reduction α}
    (h : Fails allowed (MeshError.OfReduction allowed) r) :
    Fails allowed (Cause filter allowed ctx inputs param) (Eval.ofReduction r) := by
  refine Always.bind h fun result hresult => .done fun e he => ?_
  cases result with
  | ok a => exact absurd he (by simp [Except.mapError])
  | error fault =>
    have hsame : EvalError.mesh fault = e := Except.error.inj he
    subst hsame
    cases hresult fault rfl with
    | emptyField field => exact .emptyField field
    | width expected given => exact .width expected given
    | exchange h => exact .exchange h

/-- An argument that is needed fails where it is missing or empty. -/
theorem required_fails (slot : Nat) (port : Port) (hport : filter.ports[slot]? = some port)
    (hoptional : port.optional = false) :
    Fails allowed (Cause filter allowed ctx inputs param)
      (Eval.ofExcept (inputs.required slot filter port.name)) := by
  refine fails_ofExcept fun e he => ?_
  unfold Inputs.required at he
  cases hvalue : inputs.optional? slot with
  | some value => simp [hvalue] at he
  | none =>
    rw [hvalue] at he
    exact Except.error.inj he ▸ .notSupplied hport hoptional hvalue

/-- A view fails at an argument of another kind. It never says that the argument was not supplied.
    -/
theorem view_fails {α : Type} {see : Value → Option α} {mismatch : ValueKind → Mismatch}
    (hmismatch : ∀ kind port, mismatch kind ≠ .notSupplied port) (value : Value) :
    Fails allowed (Cause filter allowed ctx inputs param)
      (Eval.ofExcept (Inputs.view see filter mismatch value)) := by
  refine fails_ofExcept fun e he => ?_
  unfold Inputs.view at he
  split at he
  · exact absurd he (by simp)
  · exact Except.error.inj he ▸ .mismatch (hmismatch _)

/-- Both causes together, for a scalar. -/
theorem scalar_fails (slot : Nat) (port : Port) (hport : filter.ports[slot]? = some port)
    (hoptional : port.optional = false) :
    Fails allowed (Cause filter allowed ctx inputs param)
      (Eval.ofExcept (inputs.scalar slot filter port.name)) := by
  unfold Inputs.scalar
  rw [ofExcept_bind]
  exact fails_ofExcept_bind (required_fails slot port hport hoptional) fun value _ =>
    view_fails (by simp) value

/-- Both causes together, for a scalar or a boolean. -/
theorem numeric_fails (slot : Nat) (port : Port) (hport : filter.ports[slot]? = some port)
    (hoptional : port.optional = false) :
    Fails allowed (Cause filter allowed ctx inputs param)
      (Eval.ofExcept (inputs.numeric slot filter port.name)) := by
  unfold Inputs.numeric
  rw [ofExcept_bind]
  exact fails_ofExcept_bind (required_fails slot port hport hoptional) fun value _ =>
    view_fails (by simp) value

/-- An argument that may be left out only fails if it is of another kind. -/
theorem scalar?_fails (slot : Nat) (port : String) :
    Fails allowed (Cause filter allowed ctx inputs param)
      (Eval.ofExcept (inputs.scalar? slot filter port)) := by
  unfold Inputs.scalar?
  cases inputs.optional? slot with
  | none => exact .ok none
  | some value =>
    dsimp only
    rw [map_eq_pure_bind, ofExcept_bind]
    exact fails_ofExcept_bind (view_fails (by simp) value) fun n _ => .ok (some n)

/-- A filter that needs a mesh fails where there is none. -/
theorem requireMesh_fails :
    Fails allowed (Cause filter allowed ctx inputs param)
      (Eval.ofExcept (ctx.requireMesh filter)) := by
  refine fails_ofExcept fun e he => ?_
  unfold Context.requireMesh at he
  cases hmesh : ctx.mesh with
  | some mesh => simp [hmesh] at he
  | none =>
    rw [hmesh] at he
    exact Except.error.inj he ▸ .missingDataset hmesh

/-- What a reduction begins with. -/
theorem field_fails (port : Port) (hport : filter.ports[0]? = some port)
    (hoptional : port.optional = false) :
    Fails allowed (Cause filter allowed ctx inputs param)
      (Eval.ofExcept (inputs.field ctx 0 filter port.name)) := by
  unfold Inputs.field
  simp only [ofExcept_bind]
  -- The checks in their order, each with the cause of its error.
  refine fails_ofExcept_bind (required_fails 0 port hport hoptional) fun value _ => ?_
  refine fails_ofExcept_bind (view_fails (by simp) value) fun field _ => ?_
  refine fails_ofExcept_bind requireMesh_fails fun mesh hmesh => ?_
  have hgiven := Context.requireMesh_eq_ok_iff.mp hmesh
  by_cases hhas : mesh.hasField field
  · by_cases hscalar : mesh.isScalarField field
    · simpa [hhas, hscalar] using .ok (mesh, field)
    · simpa [hhas, hscalar] using .throw (.nonScalarField hgiven (by simpa using hscalar))
  · simpa [hhas] using .throw (.unknownField hgiven (by simpa using hhas))

/-- Two integers fail for an overflow or a division by zero. -/
theorem onInts_fails (op : Operator) (a b : Int32) :
    Fails allowed (Cause .binaryOp allowed ctx inputs param) (Eval.ofExcept (op.onInts a b)) := by
  have hchecked : ∀ op result,
      Fails allowed (Cause .binaryOp allowed ctx inputs param)
        (Eval.ofExcept (Operator.checked op a b result)) := by
    intro op result
    unfold Operator.checked
    cases Number.ofInt? result with
    | some n => exact .ok _
    | none => exact .throw (.integerOverflow a b op)
  unfold Operator.onInts
  split
  -- A quotient is refused before it is checked for its size.
  case h_4 =>
    split
    · exact .throw .divisionByZero
    · exact hchecked _ _
  all_goals first | exact hchecked _ _ | exact .ok _

/-- An operator fails for its operands: two vectors, two of which one is a vector, or two without a
    number. -/
theorem apply_fails (op : Operator) (lhs rhs : Value) :
    Fails allowed (Cause .binaryOp allowed ctx inputs param)
      (Eval.ofExcept (op.apply lhs rhs)) := by
  unfold Operator.apply
  -- The cases of operands: two vectors, none, or one.
  split
  · unfold Operator.onVectors
    split
    · exact .ok _
    · exact .ok _
    · exact .throw (.unsupportedOperator op)
  · split
    · unfold Operator.onNumbers
      split
      · exact onInts_fails op _ _
      · exact .ok _
    · exact .throw (.mismatch (by simp))
  · exact .throw (.mismatch (by simp))

/-- A bound that is given never fails, and one that is left out fails as the extremum does. -/
theorem bound_fails (given : Option Number) {r : Reduction Located}
    (h : Fails allowed (MeshError.OfReduction allowed) r) :
    Fails allowed (Cause filter allowed ctx inputs param) (bound given r) := by
  cases given with
  | some n => exact .ok _
  | none =>
    unfold bound
    dsimp only
    rw [map_eq_pure_bind]
    exact (fails_ofReduction h).bind fun _ => .ok _

/-! ### Filters -/

/-- What a histogram ends with, once its bounds are in order. -/
theorem binned_fails {mesh : Mesh} {field : String} (hscalar : mesh.isScalarField field = true)
    (minVal maxVal : Float) (numBins : Int32) :
    Fails allowed (Cause .histogram allowed ctx inputs param)
      (match binCount? numBins with
        | none => throw (.invalidBinCount .histogram numBins)
        | some bins => do
          let counts ← Eval.ofReduction (mesh.fieldHistogram field minVal maxVal bins)
          return (Histogram.mk counts minVal maxVal numBins).toValue) := by
  cases hcount : binCount? numBins with
  | none => exact .throw (.binCount hcount)
  | some bins =>
    exact (fails_ofReduction (Mesh.fieldHistogram_fails hscalar _ _ _)).bind fun _ => .ok _

/-- What a histogram computes, once its field is found. -/
theorem histogram_fails_of_field {mesh : Mesh} {field : String}
    (hscalar : mesh.isScalarField field = true) :
    Fails allowed (Cause .histogram allowed ctx inputs param) (do
      let numBins := match ← Eval.ofExcept (inputs.scalar? 1 .histogram "num_bins") with
        | some n => n.toInt32
        | none => defaultBins
      let maxVal ← bound (← Eval.ofExcept (inputs.scalar? 3 .histogram "max_val"))
        (mesh.fieldMax field)
      let minVal ← bound (← Eval.ofExcept (inputs.scalar? 2 .histogram "min_val"))
        (mesh.fieldMin field)
      if !(minVal < maxVal) then throw (.range .histogram minVal maxVal)
      match binCount? numBins with
      | none => throw (.invalidBinCount .histogram numBins)
      | some bins =>
        let counts ← Eval.ofReduction (mesh.fieldHistogram field minVal maxVal bins)
        return (Histogram.mk counts minVal maxVal numBins).toValue) := by
  -- In the order in which the filter asks: the bins, the upper bound, the lower bound.
  refine (scalar?_fails 1 "num_bins").bind fun bins? => ?_
  refine (scalar?_fails 3 "max_val").bind fun max? => ?_
  refine (bound_fails max? (Mesh.extremum_fails hscalar .max)).bind fun maxVal => ?_
  refine (scalar?_fails 2 "min_val").bind fun min? => ?_
  refine (bound_fails min? (Mesh.extremum_fails hscalar .min)).bind fun minVal => ?_
  by_cases hrange : minVal < maxVal
  · simp only [hrange, decide_true, Bool.not_true, Bool.false_eq_true, ↓reduceIte]
    exact binned_fails hscalar minVal maxVal _
  · simpa [hrange] using .throw (.range hrange)

/-- A histogram fails for its field, or for what follows. -/
theorem computeHistogram_fails :
    Fails allowed (Cause .histogram allowed ctx inputs param) (computeHistogram ctx inputs) := by
  refine fails_ofExcept_bind (field_fails ⟨"field", false⟩ rfl rfl) ?_
  rintro ⟨mesh, field⟩ hfield
  exact histogram_fails_of_field (Inputs.field_eq_ok_iff.mp hfield).2.2

/-- **Every error of a filter has a cause**, whatever the exchanges answer of what is allowed. -/
theorem compute_fails (filter : Filter) (ctx : Context) (inputs : Inputs) (param : Param) :
    Fails allowed (Cause filter allowed ctx inputs param) (filter.compute ctx inputs param) := by
  unfold compute
  cases filter <;> simp only [ofExcept_bind]
  case nullArg => exact .ok _
  case identifier =>
    cases param with
    | name s => exact fails_ofExcept fun e he => .lookUp rfl he
    | _ => exact .throw (.param rfl (by simp [Param.kind?]))
  case integer =>
    cases param with
    | int n => exact .ok _
    | _ => exact .throw (.param rfl (by simp [Param.kind?]))
  case double =>
    cases param with
    | float n => exact .ok _
    | _ => exact .throw (.param rfl (by simp [Param.kind?]))
  case fieldRef =>
    cases param with
    | name n => exact .ok _
    | _ => exact .throw (.param rfl (by simp [Param.kind?]))
  -- Operands first; which of them fit is the concern of the operator.
  case binaryOp =>
    cases param with
    | op op =>
      refine fails_ofExcept_bind (required_fails 0 ⟨"lhs", false⟩ rfl rfl) fun lhs _ => ?_
      refine fails_ofExcept_bind (required_fails 1 ⟨"rhs", false⟩ rfl rfl) fun rhs _ => ?_
      exact apply_fails op lhs rhs
    | _ => exact .throw (.param rfl (by simp [Param.kind?]))
  case scalarMin =>
    refine fails_ofExcept_bind (numeric_fails 0 ⟨"arg1", false⟩ rfl rfl) fun a _ => ?_
    refine fails_ofExcept_bind (numeric_fails 1 ⟨"arg2", false⟩ rfl rfl) fun b _ => ?_
    exact .ok _
  case scalarMax =>
    refine fails_ofExcept_bind (numeric_fails 0 ⟨"arg1", false⟩ rfl rfl) fun a _ => ?_
    refine fails_ofExcept_bind (numeric_fails 1 ⟨"arg2", false⟩ rfl rfl) fun b _ => ?_
    exact .ok _
  -- Once the field has been found, it has one component, and the reduction fails for want of
  -- samples or for the exchange.
  case fieldMin =>
    refine fails_ofExcept_bind (field_fails ⟨"arg1", false⟩ rfl rfl) ?_
    rintro ⟨mesh, field⟩ hfield
    have hscalar := (Inputs.field_eq_ok_iff.mp hfield).2.2
    exact (fails_ofReduction (Mesh.extremum_fails hscalar .min)).bind fun _ => .ok _
  case fieldMax =>
    refine fails_ofExcept_bind (field_fails ⟨"arg1", false⟩ rfl rfl) ?_
    rintro ⟨mesh, field⟩ hfield
    have hscalar := (Inputs.field_eq_ok_iff.mp hfield).2.2
    exact (fails_ofReduction (Mesh.extremum_fails hscalar .max)).bind fun _ => .ok _
  case fieldAvg =>
    refine fails_ofExcept_bind (field_fails ⟨"arg1", false⟩ rfl rfl) ?_
    rintro ⟨mesh, field⟩ hfield
    have hscalar := (Inputs.field_eq_ok_iff.mp hfield).2.2
    exact (fails_ofReduction (Mesh.fieldAvg_fails hscalar)).bind fun _ => .ok _
  case histogram => exact computeHistogram_fails
  case position =>
    refine fails_ofExcept_bind (required_fails 0 ⟨"arg1", false⟩ rfl rfl) fun value _ => ?_
    cases value.position? with
    | some p => exact .ok _
    | none => exact .throw .missingPosition
  case cycle =>
    unfold Context.cycle
    rw [ofExcept_bind]
    refine fails_ofExcept_bind requireMesh_fails fun mesh hmesh => ?_
    have hgiven := Context.requireMesh_eq_ok_iff.mp hmesh
    rcases hvar : mesh.stateVar? ctx.cycleVar with _ | n | text
    · exact .throw (.missingStateVar hgiven hvar)
    · exact .ok _
    · exact .throw (.textStateVar hgiven hvar)
  case vector =>
    refine fails_ofExcept_bind (scalar_fails 0 ⟨"arg1", false⟩ rfl rfl) fun x _ => ?_
    refine fails_ofExcept_bind (scalar_fails 1 ⟨"arg2", false⟩ rfl rfl) fun y _ => ?_
    refine fails_ofExcept_bind (scalar_fails 2 ⟨"arg3", false⟩ rfl rfl) fun z _ => ?_
    exact .ok _
  case magnitude =>
    refine fails_ofExcept_bind (required_fails 0 ⟨"arg1", false⟩ rfl rfl) fun value _ => ?_
    refine fails_ofExcept_bind (view_fails (by simp) value) fun v _ => ?_
    exact .ok _

end Filter

/-! ### Plans -/

/-- Every error of a plan is that of one of its nodes. -/
theorem Plan.evaluate_fails {allowed : Answer → Prop} (p : Plan) (ctx : Context) :
    Fails allowed (fun failure => ∃ node ∈ p.nodes, ∃ inputs e,
      failure = ⟨p.name, node.name, node.filter, e⟩
        ∧ node.filter.Cause allowed ctx inputs node.param e) (p.evaluate ctx) := by
  unfold evaluate
  -- Nodes run one after the other, so that an error is that of one of them.
  refine (Fails.foldlM fun values id _ => ?_).bind fun values => .ok _
  unfold runNode
  cases hnode : p.nodes[id]? with
  | none => exact .ok values
  | some node =>
    refine Fails.bind ?_ fun value => .ok _
    refine (node.filter.compute_fails ctx (node.inputs.map (valueAt values)) node.param).adapt ?_
    intro e he
    exact ⟨node, List.mem_of_getElem? hnode, _, e, rfl, he⟩

end MeshExpr
