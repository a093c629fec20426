import MeshExpr.Proofs.Evaluation.Ports
import MeshExpr.Proofs.Evaluation.Renaming
import MeshExpr.Proofs.Evaluation.Safety
import MeshExpr.Proofs.Mesh.Samples

namespace MeshExpr

open Collective

/-!
# An expression reads only what it names

An expression sees the whole history and the whole mesh, but looks at little of them: at the last
values of the names that it looks up, at the fields that it names, and at one state variable if it
asks for the cycle. The names of fields are values, so they reach a reduction on any path through
the plan; but a name can only come from a parameter or from a value that was looked up.

* `Plan.Names` — the fields that a plan names, `Plan.Agrees` — two contexts with the same in all
  that it looks at.
* `EvalError.seenFrom` — what an error tells of the context.
* `Mesh.AlikeAt` — what a reduction looks at in a mesh.
* `Plan.Agrees.compute_eq` and `Plan.compute_namesOnly` — one node, `Plan.Agrees.runNode_eq` — one
  step, and `Plan.Agrees.evaluate_eq` — the whole plan.
* `Plan.EvaluatesAlike` and `Plan.evaluatesAlike_of_agrees` — what follows for the results.
-/

/-- A program whose errors stay the same. -/
theorem adapt_eq_self {α ε : Type} {x : ExceptT ε Collective α} {f : ε → ε}
    (h : Fails anyAnswer (fun e => f e = e) x) : x.adapt f = x := by
  refine ExceptT.ext ?_
  rw [run_adapt]
  refine Always.map_eq_self (Always.mono h fun result hresult => ?_)
  cases result with
  | error e => exact congrArg Except.error (hresult e rfl)
  | ok a => rfl

/-! ### What a plan names -/

/-- The fields that a plan names: in a parameter, or in a value that it looks up. -/
inductive Plan.Names (p : Plan) (ctx : Context) (field : String) : Prop where
  | param {node : PlannedNode} (hnode : node ∈ p.nodes) (hfilter : node.filter = .fieldRef)
      (hparam : node.param = .name field)
  | latest {node : PlannedNode} {name : String} {value : Value} (hnode : node ∈ p.nodes)
      (hfilter : node.filter = .identifier) (hparam : node.param = .name name)
      (hvalue : ctx.lookUp name = .ok value) (hfield : value.fieldRef? = some field)

/-- A reduction over a field cannot tell two meshes apart. -/
structure Mesh.AlikeAt (m m' : Mesh) (field : String) : Prop where
  hasField_eq : m'.hasField field = m.hasField field
  isScalarField_eq : m'.isScalarField field = m.isScalarField field
  /-- If the field has one component, then its samples and their points are the same. -/
  located_eq : ∀ decl decl', m.schema.get? field = some decl → m'.schema.get? field = some decl' →
    decl.components = 1 → decl'.components = 1 →
    m'.blocks.flatMap (·.located field decl') = m.blocks.flatMap (·.located field decl)

/-- Two contexts agree on all that a plan names. -/
structure Plan.Agrees (p : Plan) (ctx ctx' : Context) : Prop where
  /-- Under every name that is looked up, either nothing is known, or the log is empty, or the last
      values are the same. -/
  latest : ∀ node ∈ p.nodes, node.filter = .identifier → ∀ name, node.param = .name name →
    (ctx'.history.log? name).map List.getLast? = (ctx.history.log? name).map List.getLast?
  /-- There is a mesh in both contexts or in none. -/
  isSome_mesh : ctx'.mesh.isSome = ctx.mesh.isSome
  /-- The state variables that the filter `cycle` reads hold the same, if there is such a node. -/
  cycle : ∀ node ∈ p.nodes, node.filter = .cycle → ∀ m m', ctx.mesh = some m →
    ctx'.mesh = some m' → m'.stateVar? ctx'.cycleVar = m.stateVar? ctx.cycleVar
  field : ∀ field, p.Names ctx field → ∀ m m', ctx.mesh = some m → ctx'.mesh = some m' →
    m.AlikeAt m' field

/-- An error as it is told in a context. Only the names of the known fields and the name of the
    state variable belong to the context. -/
def EvalError.seenFrom (ctx : Context) : EvalError → EvalError
  | unknownField filter field known =>
    unknownField filter field ((ctx.mesh.map Mesh.fieldNames).getD known)
  | missingStateVar filter _ => missingStateVar filter ctx.cycleVar
  | nonNumericStateVar filter _ => nonNumericStateVar filter ctx.cycleVar
  | error => error

/-- A failure as it is told in a context. It is at the same node. -/
def Failure.seenFrom (ctx : Context) (failure : Failure) : Failure :=
  { failure with error := failure.error.seenFrom ctx }

/-! ### Reductions -/

namespace Mesh

variable {m m' : Mesh} {field : String} {decl : FieldDecl}

/-- The values of the samples of a block do not depend on the declaration. -/
theorem map_value_located (b : Block) (field : String) (decl : FieldDecl) :
    (b.located field decl).map Located.value = (b.fields.get? field).getD [] := by
  unfold Block.located
  cases b.fields.get? field with
  | none => rfl
  | some values => exact Located.map_value_ofSamples values _

/-- The samples of a field are known from those with their points. -/
theorem samplesOf_eq (m : Mesh) (field : String) (decl : FieldDecl) :
    Block.samplesOf field m.blocks
      = (m.blocks.flatMap (·.located field decl)).map Located.value := by
  rw [List.map_flatMap]
  simp only [map_value_located]
  rfl

namespace AlikeAt

/-- The declarations of a field with one component, and what is the same of the samples. -/
theorem exists_decl (h : m.AlikeAt m' field) (hscalar : m.isScalarField field = true) :
    ∃ decl decl', (m.schema.get? field = some decl ∧ decl.components = 1)
      ∧ (m'.schema.get? field = some decl' ∧ decl'.components = 1)
      ∧ m'.candidates field decl' = m.candidates field decl
      ∧ Block.samplesOf field m'.blocks = Block.samplesOf field m.blocks := by
  obtain ⟨decl, hdecl, hone⟩ := isScalarField_iff.mp hscalar
  obtain ⟨decl', hdecl', hone'⟩ := isScalarField_iff.mp (h.isScalarField_eq.trans hscalar)
  have hlocated := h.located_eq decl decl' hdecl hdecl' hone hone'
  refine ⟨decl, decl', ⟨hdecl, hone⟩, ⟨hdecl', hone'⟩, ?_, ?_⟩
  · rw [candidates_eq, candidates_eq, hlocated]
  · rw [samplesOf_eq m' field decl', samplesOf_eq m field decl, hlocated]

/-- Meshes that are alike at a field have the same extrema there, as the candidates are the same. -/
theorem extremum_eq (h : m.AlikeAt m' field) (hscalar : m.isScalarField field = true)
    (which : Extreme) : m'.extremum which field = m.extremum which field := by
  obtain ⟨decl, decl', ⟨hdecl, hone⟩, ⟨hdecl', hone'⟩, hcandidates, -⟩ := h.exists_decl hscalar
  rw [Mesh.extremum_eq which hdecl hone, Mesh.extremum_eq which hdecl' hone', hcandidates]

/-- They have the same averages. -/
theorem fieldAvg_eq (h : m.AlikeAt m' field) (hscalar : m.isScalarField field = true) :
    m'.fieldAvg field = m.fieldAvg field := by
  obtain ⟨decl, decl', ⟨hdecl, hone⟩, ⟨hdecl', hone'⟩, -, hsamples⟩ := h.exists_decl hscalar
  have hvalues : m'.values field decl' = m.values field decl := by
    unfold values
    rw [flatMap_samples, flatMap_samples, hsamples]
  rw [Mesh.fieldAvg_eq hdecl hone, Mesh.fieldAvg_eq hdecl' hone', hvalues]

/-- They have the same histograms. -/
theorem fieldHistogram_eq (h : m.AlikeAt m' field) (hscalar : m.isScalarField field = true)
    (minVal maxVal : Float) (bins : Nat) :
    m'.fieldHistogram field minVal maxVal bins = m.fieldHistogram field minVal maxVal bins := by
  obtain ⟨decl, decl', ⟨hdecl, hone⟩, ⟨hdecl', hone'⟩, -, hsamples⟩ := h.exists_decl hscalar
  have hindices : m'.binIndices field decl' bins minVal maxVal
      = m.binIndices field decl bins minVal maxVal := by
    unfold binIndices
    rw [flatMap_samples, flatMap_samples, hsamples]
  rw [Mesh.fieldHistogram_eq hdecl hone, Mesh.fieldHistogram_eq hdecl' hone', hindices]

end AlikeAt

end Mesh

/-! ### Filters -/

namespace Filter

variable {filter : Filter} {ctx ctx' : Context} {inputs : Inputs} {param : Param} {e : EvalError}

/-- Without a mesh there is no error that tells of the context. -/
theorem Cause.seenFrom_eq (h : filter.Cause anyAnswer {} inputs param e) (ctx' : Context) :
    e.seenFrom ctx' = e := by
  cases h with
  | lookUp _ hlookUp => rcases Context.lookUp_eq_error hlookUp with rfl | rfl <;> rfl
  | unknownField hmesh _ => exact nomatch hmesh
  | missingStateVar hmesh _ => exact nomatch hmesh
  | textStateVar hmesh _ => exact nomatch hmesh
  | _ => rfl

/-- A program of a filter that does not look at the context tells nothing of it. -/
theorem adapt_seenFrom_eq {α : Type} {x : Eval α}
    (h : Fails anyAnswer (filter.Cause anyAnswer {} inputs param) x) (ctx' : Context) :
    x.adapt (·.seenFrom ctx') = x :=
  adapt_eq_self (h.mono fun _ hcause => hcause.seenFrom_eq ctx')

/-- **Filters that do not look at the context.** -/
theorem compute_eq_of_blind
    (hblind : filter.compute ctx inputs param = filter.compute {} inputs param)
    (hblind' : filter.compute ctx' inputs param = filter.compute {} inputs param) :
    filter.compute ctx' inputs param
      = (filter.compute ctx inputs param).adapt (·.seenFrom ctx') := by
  rw [hblind, hblind', adapt_seenFrom_eq (compute_fails filter {} inputs param)]

end Filter

namespace Inputs

variable {inputs : Inputs} {ctx : Context} {slot : Nat} {filter : Filter} {port field : String}

/-- The name of a field at a port. -/
def name (inputs : Inputs) (slot : Nat) (filter : Filter) (port : String) :
    Except EvalError String :=
  inputs.required slot filter port >>= view Value.fieldRef? filter (.notField port)

/-- The name that a reduction reads is that of its first argument. -/
theorem fieldAt?_of_name (h : inputs.name slot filter port = .ok field) :
    inputs.fieldAt? slot = some field := by
  obtain ⟨value, hvalue, hname⟩ := bind_eq_ok_iff.mp h
  exact (required_and_fieldRef?_iff filter port).mp ⟨value, hvalue, view_eq_ok_iff.mp hname⟩

/-- If there is no such name, then the mesh is not looked at. -/
theorem field_eq_of_error {e : EvalError} (h : inputs.name slot filter port = .error e)
    (ctx : Context) : inputs.field ctx slot filter port = .error e := by
  unfold field
  rw [← bind_assoc]
  change inputs.name slot filter port >>= _ = _
  rw [h]
  rfl

/-- If there is one, then the mesh decides. -/
theorem field_eq_of_name (h : inputs.name slot filter port = .ok field) (ctx : Context) :
    inputs.field ctx slot filter port = match ctx.mesh with
      | none => .error (.missingDataset filter)
      | some m =>
        if m.hasField field = false then .error (.unknownField filter field m.fieldNames)
        else if m.isScalarField field = false then .error (.nonScalarField filter field)
        else .ok (m, field) := by
  unfold Inputs.field Context.requireMesh
  rw [← bind_assoc]
  change inputs.name slot filter port >>= _ = _
  rw [h]
  cases ctx.mesh with
  | none => rfl
  | some m =>
    dsimp only [bind, Except.bind]
    cases m.hasField field <;> cases m.isScalarField field <;> rfl

end Inputs

namespace Plan.Agrees

variable {p : Plan} {ctx ctx' : Context} {node : PlannedNode}

/-- Looking up a name that the plan names. -/
theorem lookUp_eq (h : p.Agrees ctx ctx') (hnode : node ∈ p.nodes)
    (hfilter : node.filter = .identifier) {name : String} (hparam : node.param = .name name) :
    ctx'.lookUp name = ctx.lookUp name := by
  have hlatest := h.latest node hnode hfilter name hparam
  unfold Context.lookUp
  cases hlog : ctx.history.log? name <;> cases hlog' : ctx'.history.log? name <;>
    simp only [hlog, hlog', Option.map_none, Option.map_some, reduceCtorEq, Option.some.injEq]
      at hlatest
  · rfl
  · dsimp only
    rw [hlatest]

/-- Both contexts have a mesh, or neither has. -/
theorem cases_mesh (h : p.Agrees ctx ctx') : (ctx.mesh = none ∧ ctx'.mesh = none)
    ∨ ∃ m m', ctx.mesh = some m ∧ ctx'.mesh = some m' := by
  have hmesh := h.isSome_mesh
  cases hm : ctx.mesh <;> cases hm' : ctx'.mesh <;> simp_all

/-- Reading the number of the cycle. -/
theorem cycle_eq (h : p.Agrees ctx ctx') (hnode : node ∈ p.nodes) (hfilter : node.filter = .cycle) :
    ctx'.cycle = ctx.cycle.mapError (·.seenFrom ctx') := by
  unfold Context.cycle Context.requireMesh
  rcases h.cases_mesh with ⟨hm, hm'⟩ | ⟨m, m', hm, hm'⟩
  · rw [hm, hm']
    rfl
  · rw [hm, hm']
    dsimp only [bind, Except.bind]
    rw [h.cycle node hnode hfilter m m' hm hm']
    rcases m.stateVar? ctx.cycleVar with _ | _ | _ <;> rfl

/-- What a reduction begins with: the checks pass for two meshes that are alike, or they fail for
    the same reason. -/
theorem adapt_field_bind (h : p.Agrees ctx ctx') {α : Type} {filter : Filter} {port : String}
    {inputs : Inputs} (hnamed : ∀ field, inputs.fieldAt? 0 = some field → p.Names ctx field)
    {f : Mesh × String → Eval α}
    (hf : ∀ m m' field, m.isScalarField field = true → m.AlikeAt m' field →
      f (m', field) = (f (m, field)).adapt (·.seenFrom ctx')) :
    Eval.ofExcept (inputs.field ctx' 0 filter port) >>= f
      = (Eval.ofExcept (inputs.field ctx 0 filter port) >>= f).adapt (·.seenFrom ctx') := by
  cases hname : inputs.name 0 filter port with
  | error e =>
    -- The argument names no field. Nothing has looked at the mesh yet.
    obtain ⟨mismatch, rfl⟩ := Filter.onlyMismatched_required_view e hname
    rw [Inputs.field_eq_of_error hname, Inputs.field_eq_of_error hname]
    rfl
  | ok field =>
    rw [Inputs.field_eq_of_name hname, Inputs.field_eq_of_name hname]
    rcases h.cases_mesh with ⟨hm, hm'⟩ | ⟨m, m', hm, hm'⟩
    · rw [hm, hm']
      rfl
    -- The field is one that the plan names, so both meshes say the same of it.
    have halike := h.field field (hnamed field (Inputs.fieldAt?_of_name hname)) m m' hm hm'
    rw [hm, hm']
    dsimp only
    rw [halike.hasField_eq, halike.isScalarField_eq]
    cases hhas : m.hasField field
    · have hknown : EvalError.seenFrom ctx' (.unknownField filter field m.fieldNames)
          = .unknownField filter field m'.fieldNames := by
        unfold EvalError.seenFrom
        rw [hm']
        rfl
      exact congrArg (fun e => (throw e : Eval α)) hknown.symm
    cases hscalar : m.isScalarField field
    · rfl
    · exact hf m m' field hscalar halike

/-- A filter that makes its value from one reduction. -/
theorem adapt_reduction (h : p.Agrees ctx ctx') {α : Type} {filter : Filter} {port : String}
    {inputs : Inputs} (hnamed : ∀ field, inputs.fieldAt? 0 = some field → p.Names ctx field)
    {r : Mesh → String → Reduction α}
    (hr : ∀ m m' field, m.isScalarField field = true → m.AlikeAt m' field →
      r m' field = r m field)
    (hfails : ∀ m field, m.isScalarField field = true →
      Fails anyAnswer (MeshError.OfReduction anyAnswer) (r m field))
    (f : α → Value) :
    (Eval.ofExcept (inputs.field ctx' 0 filter port) >>= fun found =>
        Eval.ofReduction (r found.1 found.2) >>= fun a => pure (f a))
      = (Eval.ofExcept (inputs.field ctx 0 filter port) >>= fun found =>
        Eval.ofReduction (r found.1 found.2) >>= fun a => pure (f a)).adapt
          (·.seenFrom ctx') := by
  refine h.adapt_field_bind hnamed fun m m' field hscalar halike => ?_
  -- The error of a reduction does not tell which fields there are, so it is the same from both
  -- sides.
  have hcause : Fails anyAnswer (filter.Cause anyAnswer {} inputs .nothing)
      (Eval.ofReduction (r m field) >>= fun a => (pure (f a) : Eval Value)) :=
    (Filter.fails_ofReduction (hfails m field hscalar)).bind fun _ => .ok _
  dsimp only
  rw [hr m m' field hscalar halike, Filter.adapt_seenFrom_eq hcause]

/-- **One node.** A filter of the plan computes the same in both contexts, and tells its errors as
    they are told there. -/
theorem compute_eq (h : p.Agrees ctx ctx') (hnode : node ∈ p.nodes) {inputs : Inputs}
    (hnamed : ∀ field, inputs.fieldAt? 0 = some field → p.Names ctx field) :
    node.filter.compute ctx' inputs node.param
      = (node.filter.compute ctx inputs node.param).adapt (·.seenFrom ctx') := by
  cases hfilter : node.filter
  case identifier =>
    cases hparam : node.param with
    | name s =>
      show Eval.ofExcept (ctx'.lookUp s) = (Eval.ofExcept (ctx.lookUp s)).adapt _
      rw [h.lookUp_eq hnode hfilter hparam]
      cases hlookUp : ctx.lookUp s with
      | ok value => rfl
      | error e => rcases Context.lookUp_eq_error hlookUp with rfl | rfl <;> rfl
    | _ => rfl
  case cycle =>
    show Eval.ofExcept ctx'.cycle = (Eval.ofExcept ctx.cycle).adapt _
    rw [h.cycle_eq hnode hfilter]
    rfl
  case fieldMin =>
    exact h.adapt_reduction hnamed (fun _ _ _ hscalar halike => halike.extremum_eq hscalar .min)
      (fun _ _ hscalar => Mesh.extremum_fails hscalar .min) Located.toValue
  case fieldMax =>
    exact h.adapt_reduction hnamed (fun _ _ _ hscalar halike => halike.extremum_eq hscalar .max)
      (fun _ _ hscalar => Mesh.extremum_fails hscalar .max) Located.toValue
  case fieldAvg =>
    exact h.adapt_reduction hnamed (fun _ _ _ hscalar halike => halike.fieldAvg_eq hscalar)
      (fun _ _ hscalar => Mesh.fieldAvg_fails hscalar) Value.float
  case histogram =>
    refine h.adapt_field_bind hnamed fun m m' field hscalar halike => ?_
    have hmax : m'.fieldMax field = m.fieldMax field := halike.extremum_eq hscalar .max
    have hmin : m'.fieldMin field = m.fieldMin field := halike.extremum_eq hscalar .min
    dsimp only
    simp only [hmax, hmin, halike.fieldHistogram_eq hscalar]
    have hcause : Fails anyAnswer (Filter.histogram.Cause anyAnswer {} inputs .nothing) _ :=
      Filter.histogram_fails_of_field hscalar
    exact (Filter.adapt_seenFrom_eq hcause ctx').symm
  -- The others look at their arguments and their parameter alone.
  all_goals exact Filter.compute_eq_of_blind rfl rfl

end Plan.Agrees

/-! ### Values that name fields -/

namespace Filter

variable {filter : Filter} {ctx : Context} {inputs : Inputs} {param : Param}

/-- Whatever the exchanges answer, the value is no name of a field. -/
abbrev NamesNothing (x : Eval Value) : Prop := Yields (·.fieldRef? = none) x

/-- What an operator gives names no field. -/
theorem apply_namesNothing (op : Operator) (lhs rhs : Value) :
    NamesNothing (Eval.ofExcept (op.apply lhs rhs)) := by
  -- Operators give numbers, vectors and booleans, or fail.
  have hchecked : ∀ (op : Operator) a b result,
      NamesNothing (Eval.ofExcept (op.checked a b result)) := by
    intro op a b result
    unfold Operator.checked
    cases Number.ofInt? result with
    | some n => exact .ok rfl
    | none => exact .throw _
  unfold Operator.apply
  split
  · unfold Operator.onVectors
    split <;> first | exact .ok rfl | exact .throw _
  · split
    · unfold Operator.onNumbers
      split
      · unfold Operator.onInts
        split
        case h_4 =>
          split
          · exact .throw _
          · exact hchecked _ _ _ _
        all_goals first | exact hchecked _ _ _ _ | exact .ok rfl
      · unfold Operator.onFloats
        split <;> exact .ok rfl
    · exact .throw _
  · exact .throw _

/-- Neither does a histogram. -/
theorem computeHistogram_namesNothing : NamesNothing (computeHistogram ctx inputs) := by
  unfold computeHistogram
  refine .of_bind fun found => .of_bind fun bins? => .of_bind fun max? => .of_bind fun maxVal =>
    .of_bind fun min? => .of_bind fun minVal => ?_
  by_cases hrange : minVal < maxVal
  · simp only [hrange, decide_true, Bool.not_true, Bool.false_eq_true, ↓reduceIte]
    split
    · exact .throw _
    · exact .of_bind fun _ => .ok rfl
  · simpa [hrange] using .throw _

/-- Only two filters give names of fields. -/
theorem compute_namesNothing (hidentifier : filter ≠ .identifier) (hfieldRef : filter ≠ .fieldRef) :
    NamesNothing (filter.compute ctx inputs param) := by
  unfold compute
  cases filter <;> simp only [ofExcept_bind]
  case identifier => exact absurd rfl hidentifier
  case fieldRef => exact absurd rfl hfieldRef
  case nullArg => exact .ok rfl
  case integer | double => cases param <;> first | exact .ok rfl | exact .throw _
  case binaryOp =>
    cases param with
    | op op => exact .of_bind fun lhs => .of_bind fun rhs => apply_namesNothing op lhs rhs
    | _ => exact .throw _
  case scalarMin | scalarMax => exact .of_bind fun _ => .of_bind fun _ => .ok rfl
  case fieldMin | fieldMax | fieldAvg => exact .of_bind fun _ => .of_bind fun _ => .ok rfl
  case histogram => exact computeHistogram_namesNothing
  case position =>
    refine .of_bind fun value => ?_
    cases value.position? with
    | some p => exact .ok rfl
    | none => exact .throw _
  case cycle =>
    unfold Context.cycle
    rw [ofExcept_bind]
    refine .of_bind fun m => ?_
    rcases m.stateVar? ctx.cycleVar with _ | _ | _
    all_goals first | exact .ok rfl | exact .throw _
  case vector => exact .of_bind fun _ => .of_bind fun _ => .of_bind fun _ => .ok rfl
  case magnitude => exact .of_bind fun _ => .of_bind fun _ => .ok rfl

end Filter

/-! ### The whole plan -/

namespace Plan

variable {p : Plan} {ctx ctx' : Context} {node : PlannedNode}

/-- If a value is the name of a field, then the plan names this field. -/
def NamesOnly (p : Plan) (ctx : Context) (value : Value) : Prop :=
  ∀ field, value.fieldRef? = some field → p.Names ctx field

/-- A value that is no name names nothing, so it names nothing else. -/
theorem namesOnly_of_fieldRef?_eq_none {value : Value} (h : value.fieldRef? = none) :
    p.NamesOnly ctx value := by
  intro field hfield
  exact absurd (h.symm.trans hfield) (by simp)

/-- **One node.** Names of fields come out of the parameters of a plan and out of what it looks up,
    and from nowhere else. -/
theorem compute_namesOnly (hnode : node ∈ p.nodes) (inputs : Inputs) :
    Yields (p.NamesOnly ctx) (node.filter.compute ctx inputs node.param) := by
  -- Two filters give names: one what it looks up, the other its parameter.
  by_cases hidentifier : node.filter = .identifier
  · rw [hidentifier]
    cases hparam : node.param with
    | name s =>
      refine .done fun value hvalue field hfield => ?_
      exact .latest hnode hidentifier hparam hvalue hfield
    | _ => exact .throw _
  by_cases hfieldRef : node.filter = .fieldRef
  · rw [hfieldRef]
    cases hparam : node.param with
    | name s =>
      refine .ok fun field hfield => ?_
      obtain rfl : s = field := Option.some.inj hfield
      exact .param hnode hfieldRef hparam
    | _ => exact .throw _
  · refine Always.mono (Filter.compute_namesNothing hidentifier hfieldRef) ?_
    exact fun _ hresult value hvalue => namesOnly_of_fieldRef?_eq_none (hresult value hvalue)

/-- A list of such values has no other ones in it, wherever one looks. -/
theorem namesOnly_valueAt {values : List Value} (h : ∀ value ∈ values, p.NamesOnly ctx value)
    (id : Nat) : p.NamesOnly ctx (valueAt values id) := by
  unfold valueAt
  cases hvalue : values[id]? with
  | none => exact namesOnly_of_fieldRef?_eq_none rfl
  | some value => exact h value (List.mem_of_getElem? hvalue)

/-- One node adds one more such value. -/
theorem runNode_namesOnly {values : List Value} (h : ∀ value ∈ values, p.NamesOnly ctx value)
    (id : Nat) : Yields (fun values => ∀ value ∈ values, p.NamesOnly ctx value)
      (p.runNode ctx values id) := by
  unfold runNode
  cases hnode : p.nodes[id]? with
  | none => exact .ok h
  | some node =>
    have hcompute : Yields (p.NamesOnly ctx)
        (node.filter.compute ctx (node.inputs.map (valueAt values)) node.param) :=
      compute_namesOnly (List.mem_of_getElem? hnode) _
    refine (hcompute.adapt _).bind fun computed hcomputed => .ok fun value hvalue => ?_
    rcases List.mem_or_eq_of_mem_set hvalue with hvalue | rfl
    · exact h value hvalue
    · exact hcomputed

/-- **One step.** As long as all values name only what the plan names, a node makes the same of them
    in both contexts. -/
theorem Agrees.runNode_eq (h : p.Agrees ctx ctx') {values : List Value}
    (hvalues : ∀ value ∈ values, p.NamesOnly ctx value) (id : Nat) :
    p.runNode ctx' values id = (p.runNode ctx values id).adapt (·.seenFrom ctx') := by
  unfold runNode
  cases hnode : p.nodes[id]? with
  | none => rfl
  | some node =>
    -- The first argument is a value that was filed, and these name what the plan names.
    have hnamed : ∀ field, Inputs.fieldAt? (node.inputs.map (valueAt values)) 0 = some field →
        p.Names ctx field := by
      intro field hfield
      obtain ⟨value, hvalue, hname⟩ := Option.bind_eq_some_iff.mp hfield
      obtain ⟨i, -, rfl⟩ := List.mem_map.mp (List.mem_of_getElem? hvalue)
      exact namesOnly_valueAt hvalues i field hname
    dsimp only
    rw [h.compute_eq (List.mem_of_getElem? hnode) hnamed, adapt_bind, adapt_adapt, adapt_adapt]
    rfl

/-- **All steps.** -/
theorem Agrees.foldlM_runNode_eq (h : p.Agrees ctx ctx') (ids : List Nat) {values : List Value}
    (hvalues : ∀ value ∈ values, p.NamesOnly ctx value) :
    ids.foldlM (p.runNode ctx') values
      = (ids.foldlM (p.runNode ctx) values).adapt (·.seenFrom ctx') := by
  -- The values differ from path to path, but on each of them they name only what the plan names.
  induction ids generalizing values with
  | nil => rfl
  | cons id rest ih =>
    rw [List.foldlM_cons, List.foldlM_cons, adapt_bind, h.runNode_eq hvalues]
    exact ((runNode_namesOnly hvalues id).adapt _).bind_congr fun _ hnext => ih hnext

/-- **The whole plan** is the same program in both contexts, but for what its errors tell of
    them. -/
theorem Agrees.evaluate_eq (h : p.Agrees ctx ctx') :
    p.evaluate ctx' = (p.evaluate ctx).adapt (·.seenFrom ctx') := by
  have hstart : ∀ value ∈ List.replicate p.nodes.length Value.empty, p.NamesOnly ctx value := by
    intro value hvalue
    rw [List.eq_of_mem_replicate hvalue]
    exact namesOnly_of_fieldRef?_eq_none rfl
  unfold evaluate
  rw [adapt_bind, h.foldlM_runNode_eq p.order hstart]
  rfl

/-- What two evaluations of a plan have in common. -/
structure EvaluatesAlike (p : Plan) (ctx ctx' : Context) : Prop where
  /-- Whatever the exchanges answer, the same is sent, and the results are the same. -/
  run : ∀ partner start, (p.evaluate ctx').run.runWith partner start
    = (((p.evaluate ctx).run.runWith partner start).1.mapError (·.seenFrom ctx'),
      ((p.evaluate ctx).run.runWith partner start).2)
  /-- On a rank alone, both succeed with the same value, ... -/
  ok : ∀ value, (p.evaluate ctx).run.runAlone = .ok value ↔
    (p.evaluate ctx').run.runAlone = .ok value
  /-- ... or both fail at the same node for the same reason. -/
  error : ∀ failure, (p.evaluate ctx).run.runAlone = .error failure →
    (p.evaluate ctx').run.runAlone = .error (failure.seenFrom ctx')
  /-- If the state variable has the same name, then only the list of known fields can differ. -/
  told : ctx'.cycleVar = ctx.cycleVar → ∀ failure,
    (p.evaluate ctx).run.runAlone = .error failure → failure.seenFrom ctx' = failure
      ∨ ∃ filter field known, failure.error = .unknownField filter field known

/-- An error is told in the same way by contexts that read the same state variable, unless it lists
    the known fields. -/
theorem seenFrom_eq_or_unknownField {filter : Filter} {inputs : Inputs} {param : Param}
    {e : EvalError} (h : filter.Cause anyAnswer ctx inputs param e)
    (hcycle : ctx'.cycleVar = ctx.cycleVar) :
    e.seenFrom ctx' = e ∨ ∃ filter field known, e = .unknownField filter field known := by
  cases h with
  | lookUp _ hlookUp => rcases Context.lookUp_eq_error hlookUp with rfl | rfl <;> exact .inl rfl
  | unknownField _ _ => exact .inr ⟨_, _, _, rfl⟩
  | missingStateVar _ _ => exact .inl (congrArg (EvalError.missingStateVar filter) hcycle)
  | textStateVar _ _ => exact .inl (congrArg (EvalError.nonNumericStateVar filter) hcycle)
  | _ => exact .inl rfl

/-- **An expression reads only what it names.** Two contexts in which the names that a plan looks up
    have the same last values, in which the fields that it names have the same samples, and in which
    the cycle has the same number if the plan asks for it, are one and the same to its
    evaluation. -/
theorem evaluatesAlike_of_agrees (h : p.Agrees ctx ctx') : p.EvaluatesAlike ctx ctx' := by
  have halone : (p.evaluate ctx').run.runAlone
      = (p.evaluate ctx).run.runAlone.mapError (·.seenFrom ctx') := by
    rw [h.evaluate_eq, runAlone_run_adapt]
  refine ⟨fun partner start => ?_, fun value => ?_, fun failure hfails => ?_,
    fun hcycle failure hfails => ?_⟩
  · rw [h.evaluate_eq, runWith_run_adapt]
  · rw [halone]
    cases (p.evaluate ctx).run.runAlone <;> simp [Except.mapError]
  · rw [halone, hfails]
    rfl
  · -- The failure has a cause at one of the nodes, and the cause knows what the error can be.
    have hrun : ((p.evaluate ctx).run.runWith (fun _ sent => .ok [sent]) 0).1 = .error failure := by
      rw [runWith_alone, hfails]
    have hany : Fails anyAnswer _ (p.evaluate ctx) := p.evaluate_fails ctx
    obtain ⟨node, -, inputs, e, rfl, hcause⟩ := hany.runWith (fun _ _ => trivial) hrun
    rcases seenFrom_eq_or_unknownField hcause hcycle with hsame | hunknown
    · exact .inl (congrArg (Failure.mk p.name node.name node.filter) hsame)
    · exact .inr hunknown

/-- The greatest sample of the field that was recorded last, beside the number of the cycle. -/
def probing : Plan where
  name := "probing"
  nodes := [⟨0, "last", .identifier, .name "probe", []⟩, ⟨1, "peak", .fieldMax, .nothing, [0]⟩,
    ⟨2, "now", .cycle, .nothing, []⟩]
  order := [0, 1, 2]
  output := 1

/-- A context for `probing`. -/
def probed : Context where
  mesh := some ((Mesh.pair 1 2).setCycle 3)
  history := (History.empty.append "probe" (.int 7)).append "probe" (.fieldRef "e")

/-- A context with other values in its past, and with other fields and state variables. -/
def probedElsewhere : Context where
  mesh := some {
    schema := (Named.insert ∅ "e" ⟨.element, 1⟩).insert "v" ⟨.vertex, 3⟩
    blocks := [{ elements := [.zero, .zero], fields := Named.insert ∅ "e" [1, 2] }]
    state := (Named.insert ∅ "step" (.number (.int 3))).insert "cycle" (.text "three") }
  history := (History.empty.append "other" (.int 1)).append "probe" (.fieldRef "e")
  cycleVar := "step"

/-- The plan `probing` names the field that was recorded last, and no other one. -/
theorem names_probing {field : String} (h : probing.Names probed field) : field = "e" := by
  cases h with
  | param hnode hfilter _ =>
    simp only [probing, List.mem_cons, List.not_mem_nil, or_false] at hnode
    rcases hnode with rfl | rfl | rfl <;> exact nomatch hfilter
  | latest hnode hfilter hparam hvalue hfield =>
    simp only [probing, List.mem_cons, List.not_mem_nil, or_false] at hnode
    rcases hnode with rfl | rfl | rfl
    · obtain rfl := Param.name.inj hparam
      obtain rfl := Except.ok.inj hvalue
      exact (Option.some.inj hfield).symm
    · exact nomatch hfilter
    · exact nomatch hfilter

/-- Both contexts agree on what `probing` reads. -/
theorem agrees_probing : probing.Agrees probed probedElsewhere where
  latest node hnode hfilter name hparam := by
    simp only [probing, List.mem_cons, List.not_mem_nil, or_false] at hnode
    rcases hnode with rfl | rfl | rfl
    · obtain rfl := Param.name.inj hparam
      rfl
    · exact nomatch hfilter
    · exact nomatch hfilter
  isSome_mesh := rfl
  cycle _ _ _ m m' hm hm' := by
    obtain rfl := Option.some.inj hm
    obtain rfl := Option.some.inj hm'
    rfl
  field field hnamed m m' hm hm' := by
    obtain rfl := Option.some.inj hm
    obtain rfl := Option.some.inj hm'
    obtain rfl := names_probing hnamed
    refine ⟨rfl, rfl, fun decl decl' hdecl hdecl' _ _ => ?_⟩
    obtain rfl := Option.some.inj hdecl
    obtain rfl := Option.some.inj hdecl'
    rfl

/-- So it does not matter in which of them it is evaluated. -/
theorem evaluatesAlike_probing : probing.EvaluatesAlike probed probedElsewhere
    ∧ (probing.evaluate probedElsewhere).run.runAlone = .ok (Located.mk 2 .zero).toValue := by
  have halike := evaluatesAlike_of_agrees agrees_probing
  refine ⟨halike, (halike.ok _).mp ?_⟩
  decide +kernel

end Plan

end MeshExpr
