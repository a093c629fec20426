import MeshExpr.Mesh.Reduction

namespace MeshExpr

/-!
# Extrema of a field

The least or the greatest sample of a field and the point where it sits. Samples that are not
numbers take no part, and of equal samples the first one counts: the lower rank, then the earlier
block, then the smaller index.

* `Extreme.better` picks the better of two candidates, `Extreme.best` the best of a list.
* `Mesh.extremum` is the reduction: each rank sends its best candidate, and the best of these is
  the answer.
-/

/-- A sample and the point where it sits. -/
structure Located where
  value : Float
  position : Vec3
deriving DecidableEq, Inhabited

/-- Which end of the order is looked for. -/
inductive Extreme where
  | min
  | max
deriving DecidableEq, Repr

namespace Extreme

/-- Whether a value is strictly better than another one. -/
def improves : Extreme → Float → Float → Bool
  | min, a, b => a < b
  | max, a, b => b < a

/-- The better of the best candidate so far and the next one; of equal ones the first. -/
def better (which : Extreme) (best : Option Located) (next : Located) : Option Located :=
  match best with
  | none => some next
  | some current => if which.improves next.value current.value then some next else some current

/-- The first of the best candidates of a list. -/
def best (which : Extreme) (candidates : List Located) : Option Located :=
  candidates.foldl which.better none

end Extreme

namespace Located

/-- The samples of one block with their points; the origin stands in where there is no point. -/
def ofSamples (values : List Float) (positions : List Vec3) : List Located :=
  List.zipWith mk values (positions ++ List.replicate (values.length - positions.length) .zero)

/-- A sample is paired with the point of the same index, or with the origin if there is none. -/
theorem getElem?_ofSamples (values : List Float) (positions : List Vec3) (i : Nat) :
    (ofSamples values positions)[i]? =
      values[i]?.map fun value => ⟨value, positions[i]?.getD .zero⟩ := by
  rw [ofSamples, List.getElem?_zipWith]
  cases hv : values[i]? with
  | none => rfl
  | some value =>
    have hi : i < values.length := (List.getElem?_eq_some_iff.1 hv).1
    by_cases hp : i < positions.length
    · simp [List.getElem?_append_left hp, List.getElem?_eq_getElem hp]
    · have hle : positions.length ≤ i := Nat.le_of_not_lt hp
      simp [List.getElem?_append_right hle, List.getElem?_eq_none hle,
        show i - positions.length < values.length - positions.length by omega]

/-- How many floats a candidate takes in an exchange. -/
def width : Nat := 5

/-- What a rank sends: whether it has a candidate, its value, and its position. -/
def encode : Option Located → List Float
  | none => [0, 0 / 0, 0, 0, 0]
  | some c => [1, c.value, c.position.x, c.position.y, c.position.z]

/-- What a rank has sent. -/
def decode : List Float → Option Located
  | [present, value, x, y, z] => if present == 0 then none else some ⟨value, ⟨x, y, z⟩⟩
  | _ => none

/-- All ranks send the same number of floats, whether they have a candidate or not. -/
theorem length_encode (c : Option Located) : (encode c).length = width := by cases c <;> rfl

end Located

namespace Mesh

/-- The samples of a field on this rank that are numbers, block after block. -/
def candidates (m : Mesh) (field : String) (decl : FieldDecl) : List Located :=
  ((m.samples field decl).flatMap fun (values, positions) =>
    Located.ofSamples values positions).filter
    fun c => !c.value.isNaN

/-- The extremum of a field over all ranks. -/
def extremum (m : Mesh) (which : Extreme) (field : String) : Reduction Located := do
  let decl ← Reduction.ofExcept (m.scalarDecl field)
  let parts ← Reduction.exchange (Located.encode (which.best (m.candidates field decl)))
  -- The parts stand in the order of the ranks: of equal candidates the one of the lowest rank is
  -- taken.
  match which.best (parts.filterMap Located.decode) with
  | some c => return c
  | none => throw (.emptyField field)

/-- The least sample of a field. -/
def fieldMin (m : Mesh) (field : String) : Reduction Located := m.extremum .min field

/-- The greatest sample of a field. -/
def fieldMax (m : Mesh) (field : String) : Reduction Located := m.extremum .max field

end Mesh

end MeshExpr
