import MeshExpr.Mesh.Reduction

namespace MeshExpr.Mesh

/-!
# The average of a field

The sum of all samples divided by their number. Samples that are not numbers count, and make the
average no number.

* `sum` adds from left to right, starting from zero; `countAll` counts, each time adding one to a
  float.
* `fieldAvg` is the reduction: each rank sends the sum and the number of its samples, and both are
  added in the order of the ranks.
-/

/-- The sum from left to right. -/
def sum (xs : List Float) : Float := xs.foldl (· + ·) 0

/-- How many floats there are, each time adding one to a float. -/
def countAll (xs : List Float) : Float := xs.foldl (fun count _ => count + 1) 0

/-- The samples of a field on this rank, block after block. -/
def values (m : Mesh) (field : String) (decl : FieldDecl) : List Float :=
  (m.samples field decl).flatMap (·.1)

/-- The sum and the number of the parts of all ranks. -/
def total (parts : List (List Float)) : Float × Float :=
  (sum (parts.map fun part => part.headD 0), sum (parts.map fun part => part.getLastD 0))

/-- The average of a field over all ranks. -/
def fieldAvg (m : Mesh) (field : String) : Reduction Float := do
  let decl ← Reduction.ofExcept (m.scalarDecl field)
  let values := m.values field decl
  let parts ← Reduction.exchange [sum values, countAll values]
  let (sum, count) := total parts
  if count > 0 then return sum / count else throw (.emptyField field)

end MeshExpr.Mesh
