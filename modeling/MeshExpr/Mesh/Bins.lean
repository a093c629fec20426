import MeshExpr.Mesh.Reduction

namespace MeshExpr.Mesh

/-!
# Histograms of a field

A range is cut into bins of equal width, and each sample is counted in its bin. Samples below the
range count in the first bin, samples above it in the last one, and samples that are not numbers
in none.

* `binIndex?` is the bin of a sample.
* `count` counts in floats how often each index below a bound stands in a list.
* `fieldHistogram` is the reduction: each rank sends its counts, and the counts of all ranks are
  added bin by bin as integers.
-/

/-- The bin of a sample in a range that is cut into `bins` bins. -/
def binIndex? (bins : Nat) (minVal maxVal value : Float) : Option Nat :=
  if value.isNaN || bins == 0 then none
  else
    let scaled := (value - minVal) / (maxVal - minVal) * bins.toFloat
    -- What is no number turns into zero as an integer, so that it counts in the first bin.
    some (if scaled ≤ 0 then 0 else min scaled.toUInt64.toNat (bins - 1))

/-- How often each index below `bins` stands in a list, each time adding one to a float. -/
def count (bins : Nat) (indices : List Nat) : List Float :=
  (indices.foldl (fun counts i => counts.modify i (· + 1)) (Array.replicate bins 0)).toList

/-- Adds lists of counts of length `bins` bin by bin. The counts have no upper bound here: what the
    ranks of a group have counted adds up to no more than the number of their samples, which a
    machine word holds. Only parts that are no counts of samples could add up to more. -/
def addCounts (bins : Nat) (parts : List (List Nat)) : List Nat :=
  parts.foldl (List.zipWith (· + ·)) (List.replicate bins 0)

/-- A count that was sent as a float. -/
def ofFloat (x : Float) : Nat := x.toUInt64.toNat

/-- The bins of the samples of a field on this rank, block after block. -/
def binIndices (m : Mesh) (field : String) (decl : FieldDecl) (bins : Nat) (minVal maxVal : Float) :
    List Nat :=
  ((m.samples field decl).flatMap (·.1)).filterMap (binIndex? bins minVal maxVal)

/-- The number of samples of a field in each bin, over all ranks. -/
def fieldHistogram (m : Mesh) (field : String) (minVal maxVal : Float) (bins : Nat) :
    Reduction (List Nat) := do
  let decl ← Reduction.ofExcept (m.scalarDecl field)
  let parts ← Reduction.exchange (count bins (m.binIndices field decl bins minVal maxVal))
  return addCounts bins (parts.map fun part => part.map ofFloat)

end MeshExpr.Mesh
