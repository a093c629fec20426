import Mathlib.Algebra.Group.Int.Defs
import MeshExpr.Eval.Compute
import MeshExpr.Proofs.Checked

namespace MeshExpr

/-!
# The arguments of reductions

All reductions over a field begin with the same checks: an argument must name a field, there must be
a mesh, and the mesh must declare the field with one component. A histogram has arguments besides,
which may be left out.

* `Inputs.fieldAt?` — the field that an argument names.
* `Mesh.isScalarField_iff` — the fields that are good for a reduction.
* `Inputs.field_eq_ok_iff` — when the checks of the field pass.
* `Inputs.scalar?_eq_ok_iff` and `Filter.binCount?_eq_some_iff` — when those of the others do.
-/

/-- The field that an argument names. -/
def Inputs.fieldAt? (inputs : Inputs) (slot : Nat) : Option String :=
  inputs[slot]?.bind Value.fieldRef?

namespace Mesh

variable {m : Mesh} {field : String}

/-- The check that a filter makes finds fields that are declared with one component. -/
theorem isScalarField_iff :
    m.isScalarField field = true
      ↔ ∃ decl, m.schema.get? field = some decl ∧ decl.components = 1 := by
  unfold isScalarField
  rw [Option.any_eq_true]
  simp only [beq_iff_eq]

/-- Such a field is declared. -/
theorem hasField_of_isScalarField (h : m.isScalarField field = true) :
    m.hasField field = true := by
  obtain ⟨decl, hdecl, -⟩ := isScalarField_iff.mp h
  unfold hasField Named.contains
  rw [hdecl]
  rfl

end Mesh

/-- A filter that needs a mesh finds the one of the context. -/
theorem Context.requireMesh_eq_ok_iff {ctx : Context} {filter : Filter} {m : Mesh} :
    ctx.requireMesh filter = .ok m ↔ ctx.mesh = some m := by
  unfold requireMesh
  cases ctx.mesh <;> simp

namespace Inputs

variable {inputs : Inputs} {ctx : Context} {slot : Nat} {filter : Filter} {port field : String}
  {m : Mesh}

/-- An argument that names a field is not empty. -/
theorem required_and_fieldRef?_iff (filter : Filter) (port : String) :
    (∃ value, inputs.required slot filter port = .ok value ∧ value.fieldRef? = some field)
      ↔ inputs.fieldAt? slot = some field := by
  unfold required optional? fieldAt?
  cases inputs[slot]? with
  | none => simp
  | some value =>
    rcases value with ⟨_ | _ | _ | _ | _ | _, attrs⟩ <;>
      simp [Option.filter, Value.isEmpty, Value.fieldRef?]

/-- A view succeeds with what it shows. -/
theorem view_eq_ok_iff {α : Type} {see : Value → Option α} {mismatch : ValueKind → Mismatch}
    {value : Value} {a : α} : view see filter mismatch value = .ok a ↔ see value = some a := by
  unfold view
  cases see value <;> simp

/-- The checks pass if an argument names a field, and there is a mesh that declares it with one
    component. -/
theorem field_eq_ok_iff :
    inputs.field ctx slot filter port = .ok (m, field)
      ↔ ctx.mesh = some m ∧ inputs.fieldAt? slot = some field ∧ m.isScalarField field = true := by
  -- A field with one component is declared, so that the first check adds nothing to the second.
  have hchecks : ∀ m' field', (do
        if !m'.hasField field' then throw (.unknownField filter field' m'.fieldNames)
        if !m'.isScalarField field' then throw (.nonScalarField filter field')
        return (m', field') : Except EvalError (Mesh × String)) = .ok (m, field)
      ↔ (m' = m ∧ field' = field) ∧ m'.isScalarField field' = true := by
    intro m' field'
    cases hscalar : m'.isScalarField field' with
    | true => simp [Mesh.hasField_of_isScalarField hscalar, pure, Except.pure]
    | false => cases m'.hasField field' <;> simp [bind, Except.bind]
  rw [← required_and_fieldRef?_iff filter port]
  unfold Inputs.field
  simp only [bind_eq_ok_iff (x := required _ _ _ _), bind_eq_ok_iff (x := view _ _ _ _),
    bind_eq_ok_iff (x := ctx.requireMesh _), view_eq_ok_iff, Context.requireMesh_eq_ok_iff, hchecks]
  constructor
  · rintro ⟨value, hvalue, field', hfield, m', hm, ⟨rfl, rfl⟩, hscalar⟩
    exact ⟨hm, ⟨value, hvalue, hfield⟩, hscalar⟩
  · rintro ⟨hm, ⟨value, hvalue, hfield⟩, hscalar⟩
    exact ⟨value, hvalue, field, hfield, m, hm, ⟨rfl, rfl⟩, hscalar⟩

/-- An argument that may be left out. -/
theorem scalar?_eq_ok_iff {given : Option Number} :
    inputs.scalar? slot filter port = .ok given ↔
      (inputs.optional? slot = none ∧ given = none)
        ∨ ∃ value n, inputs.optional? slot = some value ∧ value.number? = some n
          ∧ given = some n := by
  unfold scalar?
  cases inputs.optional? slot with
  | none => simp [eq_comm]
  | some value =>
    simp only [map_eq_pure_bind, bind_eq_ok_iff, view_eq_ok_iff]
    simp [pure, Except.pure, eq_comm]

/-- An argument that may be left out is only refused if it is there and no scalar. -/
theorem exists_of_scalar?_eq_error {e : EvalError}
    (h : inputs.scalar? slot filter port = .error e) :
    ∃ value, inputs.optional? slot = some value ∧ value.number? = none := by
  unfold scalar? at h
  cases hvalue : inputs.optional? slot with
  | none => simp [hvalue] at h
  | some value =>
    refine ⟨value, rfl, ?_⟩
    unfold view at h
    cases hn : value.number? with
    | none => rfl
    | some n => simp [hvalue, hn] at h

end Inputs

/-- How many bins a histogram may have. -/
theorem Filter.binCount?_eq_some_iff {numBins : Int32} {bins : Nat} :
    binCount? numBins = some bins
      ↔ (1 ≤ numBins.toInt ∧ numBins.toInt ≤ 2 ^ 20) ∧ numBins.toInt = bins := by
  unfold binCount? maxBins
  rw [Option.ite_none_right_eq_some, Option.some.injEq]
  omega

end MeshExpr
