namespace MeshExpr

/-!
# Errors of a mesh

What can go wrong when a mesh is built, when a field of it is reduced, and when the ranks that share
it exchange their contributions.

* `MeshError` — the errors, with one constructor for each kind.
* `SchemaFault` and `ExchangeFault` — the details of two of them.
-/

/-- Why an exchange failed. -/
inductive ExchangeFault where
  /-- The exchange itself failed. -/
  | failed (reason : String)
  /-- A rank contributed another number of floats than was agreed. -/
  | width (expected given : Nat)
deriving DecidableEq

namespace ExchangeFault

/-- The text of a failed exchange. -/
def message : ExchangeFault → String
  | failed reason => reason
  | width expected given => s!"expected {expected} values per rank, got {given}"

end ExchangeFault

/-- How the samples of a field fail to fit its declaration. -/
inductive SchemaFault where
  | undeclared
  /-- Another number of samples than the points call for. -/
  | length (expected : UInt64) (given : Nat)
  /-- More or less than one component where a reduction needs one. -/
  | components (given : UInt64)
deriving DecidableEq

namespace SchemaFault

/-- The text of a field that does not fit. -/
def message : SchemaFault → String
  | undeclared => "field is not declared"
  | length expected given => s!"expected {expected} values, got {given}"
  | components given => s!"reductions need 1 component, field has {given}"

end SchemaFault

/-- What can go wrong with a mesh. -/
inductive MeshError where
  | fieldNotFound (field : String)
  /-- No rank has a sample that counts. -/
  | emptyField (field : String)
  | schemaMismatch (field : String) (fault : SchemaFault)
  | communication (fault : ExchangeFault)
deriving DecidableEq

namespace MeshError

/-- The text of an error. -/
def message : MeshError → String
  | fieldNotFound field => s!"field `{field}` is not declared"
  | emptyField field => s!"field `{field}` has no samples on any rank"
  | schemaMismatch field fault =>
    s!"field `{field}` does not match its declaration: {fault.message}"
  | communication fault => s!"collective exchange failed: {fault.message}"

end MeshError

end MeshExpr
