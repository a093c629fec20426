import MeshExpr.Eval.Plan
import MeshExpr.Proofs.Collective.InStep

namespace MeshExpr

open Collective

/-!
# Ranks that own different parts of one mesh

The ranks of a group share the declarations of the fields and the state variables; the blocks that
they own are their own. Evaluation on two such ranks is in step: nothing but what they share decides
whether an exchange takes place and how wide it is, and every result is made from the answers of
exchanges.

* `Mesh.Alike` and `Context.Alike` — what two ranks share.
* `Mesh.Alike.extremum_inStep` and its like — the reductions are in step.
* `Context.Alike.compute_inStep` — so is every filter, whatever its arguments are.
* `Context.Alike.evaluate_inStep` — and so is every plan.
-/

/-! ### Meshes -/

/-- The meshes of two ranks have the same declarations and the same state variables. -/
structure Mesh.Alike (m m' : Mesh) : Prop where
  schema : m.schema = m'.schema
  state : m.state = m'.state

/-- Exchanges of lists of one length are in step: each rank is given the same answer, and reads it
    with the same width. -/
theorem Reduction.exchange_inStep {sent sent' : List Float} (h : sent.length = sent'.length) :
    InStep Eq (Reduction.exchange sent).run (Reduction.exchange sent').run := by
  refine .exchange h fun answer => .done ?_
  rw [h]

/-- There is one count for each bin. -/
theorem Mesh.length_count (bins : Nat) (indices : List Nat) :
    (Mesh.count bins indices).length = bins := by
  have hsize : ∀ (indices : List Nat) (counts : Array Float),
      (indices.foldl (fun counts i => counts.modify i (· + 1)) counts).size = counts.size := by
    intro indices
    induction indices with
    | nil => exact fun _ => rfl
    | cons i rest ih => exact fun counts => by rw [List.foldl_cons, ih, Array.size_modify]
  unfold Mesh.count
  rw [Array.length_toList, hsize, Array.size_replicate]

namespace Mesh.Alike

variable {m m' : Mesh}

/-- What a reduction makes of the declaration of a field is the same on meshes that are alike. -/
theorem scalarDecl (h : m.Alike m') (field : String) :
    m.scalarDecl field = m'.scalarDecl field := by
  unfold Mesh.scalarDecl
  rw [h.schema]

/-- They declare the same fields. -/
theorem hasField (h : m.Alike m') (field : String) : m.hasField field = m'.hasField field := by
  unfold Mesh.hasField
  rw [h.schema]

/-- They declare them with as many components. -/
theorem isScalarField (h : m.Alike m') (field : String) :
    m.isScalarField field = m'.isScalarField field := by
  unfold Mesh.isScalarField
  rw [h.schema]

/-- Their fields have the same names. -/
theorem fieldNames (h : m.Alike m') : m.fieldNames = m'.fieldNames := by
  unfold Mesh.fieldNames
  rw [h.schema]

/-- The search for an extremum always exchanges one candidate, even if the rank has none. -/
theorem extremum_inStep (h : m.Alike m') (which : Extreme) (field : String) :
    InStep Eq (m.extremum which field).run (m'.extremum which field).run := by
  unfold Mesh.extremum
  -- The declaration decides whether there is an exchange, and it is shared.
  rw [h.scalarDecl]
  refine (InStep.refl _).exceptBind fun decl => ?_
  refine (Reduction.exchange_inStep ?_).exceptBind fun parts => .refl _
  rw [Located.length_encode, Located.length_encode]

/-- Averages over meshes that are alike are in step: two floats are sent in any case. -/
theorem fieldAvg_inStep (h : m.Alike m') (field : String) :
    InStep Eq (m.fieldAvg field).run (m'.fieldAvg field).run := by
  unfold Mesh.fieldAvg
  rw [h.scalarDecl]
  refine (InStep.refl _).exceptBind fun decl => ?_
  dsimp only
  refine (Reduction.exchange_inStep ?_).exceptBind fun parts => .refl _
  rfl

/-- A histogram exchanges one count for each bin. -/
theorem fieldHistogram_inStep (h : m.Alike m') (field : String) (minVal maxVal : Float)
    (bins : Nat) :
    InStep Eq (m.fieldHistogram field minVal maxVal bins).run
      (m'.fieldHistogram field minVal maxVal bins).run := by
  unfold Mesh.fieldHistogram
  rw [h.scalarDecl]
  refine (InStep.refl _).exceptBind fun decl => ?_
  refine (Reduction.exchange_inStep ?_).exceptBind fun parts => .refl _
  rw [length_count, length_count]

end Mesh.Alike

/-! ### Contexts -/

/-- Two ranks see the same history, and meshes alike or none. -/
structure Context.Alike (ctx ctx' : Context) : Prop where
  mesh : Option.Rel Mesh.Alike ctx.mesh ctx'.mesh
  history : ctx.history = ctx'.history
  cycleVar : ctx.cycleVar = ctx'.cycleVar

/-- A filter that makes its value from a reduction is in step if the reduction is. -/
theorem Eval.ofReduction_inStep {α : Type} {r r' : Reduction α} (h : InStep Eq r.run r'.run) :
    InStep Eq (Eval.ofReduction r).run (Eval.ofReduction r').run :=
  h.bind fun _ _ hresult => .done (congrArg _ hresult)

/-- A bound is in step, be it given or an extremum. -/
theorem Filter.bound_inStep {extremum extremum' : Reduction Located}
    (h : InStep Eq extremum.run extremum'.run) (given : Option Number) :
    InStep Eq (Filter.bound given extremum).run (Filter.bound given extremum').run := by
  cases given with
  | some n => exact .refl _
  | none =>
    unfold bound
    rw [map_eq_pure_bind, map_eq_pure_bind]
    exact (Eval.ofReduction_inStep h).exceptBind fun _ => .refl _

namespace Context.Alike

variable {ctx ctx' : Context}

/-- What is looked up is the same in contexts that are alike. -/
theorem lookUp (h : ctx.Alike ctx') (name : String) : ctx.lookUp name = ctx'.lookUp name := by
  unfold Context.lookUp
  rw [h.history]

/-- Either no rank has a mesh, or both have. -/
theorem requireMesh (h : ctx.Alike ctx') (filter : Filter) :
    (∃ e, ctx.requireMesh filter = .error e ∧ ctx'.requireMesh filter = .error e)
    ∨ ∃ m m', m.Alike m' ∧ ctx.requireMesh filter = .ok m ∧ ctx'.requireMesh filter = .ok m' := by
  have hmesh := h.mesh
  unfold Context.requireMesh
  cases hm : ctx.mesh <;> cases hm' : ctx'.mesh <;> rw [hm, hm'] at hmesh <;> cases hmesh
  · exact .inl ⟨_, rfl, rfl⟩
  · rename_i m m' halike
    exact .inr ⟨m, m', halike, rfl, rfl⟩

/-- So is the number of the cycle. -/
theorem cycle (h : ctx.Alike ctx') : ctx.cycle = ctx'.cycle := by
  unfold Context.cycle
  rcases h.requireMesh .cycle with ⟨e, he, he'⟩ | ⟨m, m', hm, hmesh, hmesh'⟩
  · rw [he, he']
    rfl
  · rw [hmesh, hmesh', h.cycleVar]
    simp only [Mesh.stateVar?, hm.state, bind, Except.bind]

/-- What all reductions begin with fails on both ranks with one error, or gives the field on both of
    them. -/
theorem field (h : ctx.Alike ctx') (inputs : Inputs) (slot : Nat) (filter : Filter)
    (port : String) :
    (∃ e, inputs.field ctx slot filter port = .error e
      ∧ inputs.field ctx' slot filter port = .error e)
    ∨ ∃ m m' name, m.Alike m' ∧ inputs.field ctx slot filter port = .ok (m, name)
      ∧ inputs.field ctx' slot filter port = .ok (m', name) := by
  unfold Inputs.field
  cases hrequired : inputs.required slot filter port with
  | error e => exact .inl ⟨e, rfl, rfl⟩
  | ok value =>
    cases hview : Inputs.view Value.fieldRef? filter (.notField port) value with
    | error e =>
      simp only [hview, bind, Except.bind]
      exact .inl ⟨e, rfl, rfl⟩
    | ok name =>
      -- The ranks have a mesh each or none, and what is asked of it depends on the schema only.
      rcases h.requireMesh filter with ⟨e, he, he'⟩ | ⟨m, m', hm, hmesh, hmesh'⟩
      · simp only [hview, he, he', bind, Except.bind]
        exact .inl ⟨e, rfl, rfl⟩
      · simp only [hview, hmesh, hmesh', hm.hasField, hm.isScalarField, hm.fieldNames, bind,
          Except.bind]
        cases m'.hasField name with
        | false => exact .inl ⟨_, rfl, rfl⟩
        | true =>
          cases m'.isScalarField name with
          | false => exact .inl ⟨_, rfl, rfl⟩
          | true => exact .inr ⟨m, m', name, hm, rfl, rfl⟩

/-- A filter that needs a field and then goes on in step is in step. -/
theorem withField_inStep {α : Type} (h : ctx.Alike ctx') (inputs : Inputs) (slot : Nat)
    (filter : Filter) (port : String) {f : Mesh × String → Eval α}
    (hf : ∀ m m' name, m.Alike m' → InStep Eq (f (m, name)).run (f (m', name)).run) :
    InStep Eq (Eval.ofExcept (inputs.field ctx slot filter port) >>= f).run
      (Eval.ofExcept (inputs.field ctx' slot filter port) >>= f).run := by
  rcases h.field inputs slot filter port with ⟨e, he, he'⟩ | ⟨m, m', name, hm, hfield, hfield'⟩
  · rw [he, he']
    exact .refl _
  · rw [hfield, hfield']
    exact hf m m' name hm

/-- A histogram is in step: whether there is another exchange depends only on what is the same on
    all ranks. -/
theorem computeHistogram_inStep (h : ctx.Alike ctx') (inputs : Inputs) :
    InStep Eq (Filter.computeHistogram ctx inputs).run
      (Filter.computeHistogram ctx' inputs).run := by
  -- The arguments are the same on both ranks; only the two bounds may need an exchange.
  refine h.withField_inStep inputs 0 .histogram "field" fun m m' name hm => ?_
  refine (InStep.refl _).exceptBind fun numBins => ?_
  refine (InStep.refl _).exceptBind fun givenMax => ?_
  refine (Filter.bound_inStep (hm.extremum_inStep .max name) givenMax).exceptBind fun maxVal => ?_
  refine (InStep.refl _).exceptBind fun givenMin => ?_
  refine (Filter.bound_inStep (hm.extremum_inStep .min name) givenMin).exceptBind fun minVal => ?_
  dsimp only
  -- Both ranks have the same bounds here, so the check of the range has one outcome.
  generalize (!decide (minVal < maxVal)) = isEmpty
  cases isEmpty with
  | true => exact .refl _
  | false =>
    simp only [Bool.false_eq_true, if_false]
    split
    · exact .refl _
    · exact (Eval.ofReduction_inStep (hm.fieldHistogram_inStep name minVal maxVal _)).exceptBind
        fun _ => .refl _

/-- **Every filter is in step** on two ranks that share what they have to, whatever its arguments
    are: it exchanges equally often on both, and has one value or fails with one error. -/
theorem compute_inStep (h : ctx.Alike ctx') (filter : Filter) (inputs : Inputs) (param : Param) :
    InStep Eq (filter.compute ctx inputs param).run (filter.compute ctx' inputs param).run := by
  cases filter with
  | identifier =>
    cases param with
    | name s =>
      show InStep Eq (Eval.ofExcept (ctx.lookUp s)).run (Eval.ofExcept (ctx'.lookUp s)).run
      rw [h.lookUp]
      exact .refl _
    | _ => exact .refl _
  | cycle =>
    show InStep Eq (Eval.ofExcept ctx.cycle).run (Eval.ofExcept ctx'.cycle).run
    rw [h.cycle]
    exact .refl _
  | fieldMin =>
    exact h.withField_inStep inputs 0 .fieldMin "arg1" fun m m' name hm =>
      (Eval.ofReduction_inStep (hm.extremum_inStep .min name)).exceptBind fun _ => .refl _
  | fieldMax =>
    exact h.withField_inStep inputs 0 .fieldMax "arg1" fun m m' name hm =>
      (Eval.ofReduction_inStep (hm.extremum_inStep .max name)).exceptBind fun _ => .refl _
  | fieldAvg =>
    exact h.withField_inStep inputs 0 .fieldAvg "arg1" fun m m' name hm =>
      (Eval.ofReduction_inStep (hm.fieldAvg_inStep name)).exceptBind fun _ => .refl _
  | histogram => exact h.computeHistogram_inStep inputs
  -- The others do not look at the context.
  | _ => exact .refl _

/-- One node of a plan is in step. -/
theorem runNode_inStep (h : ctx.Alike ctx') (p : Plan) (values : List Value) (id : Nat) :
    InStep Eq (p.runNode ctx values id).run (p.runNode ctx' values id).run := by
  unfold Plan.runNode
  cases p.nodes[id]? with
  | none => exact .refl _
  | some node =>
    exact ((h.compute_inStep node.filter _ node.param).adapt _).exceptBind fun _ => .refl _

/-- **Every plan is in step** on two ranks that share what they have to. -/
theorem evaluate_inStep (h : ctx.Alike ctx') (p : Plan) :
    InStep Eq (p.evaluate ctx).run (p.evaluate ctx').run :=
  (InStep.foldlM fun values id _ => h.runNode_inStep p values id).exceptBind fun _ => .refl _

end Context.Alike

end MeshExpr
