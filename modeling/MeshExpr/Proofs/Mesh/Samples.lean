import Mathlib.Data.List.Basic
import MeshExpr.Mesh.Extremum

namespace MeshExpr

/-!
# The samples of a field over all ranks

The samples of a field are spread over ranks, over the blocks of a rank, and over a block. Here each
of them has one spot, and the spots have one order: the rank decides first, then the block, then
the index.

* `Spot` — a place where a sample can be, `Spot.Before` the order of places.
* `Block.point?` — the point of a sample, by the association of its field.
* `Mesh.sampleAt?` — the sample at a spot of a group, with the point where it sits.
* `Mesh.spotted` — all samples of a group in one list; `mem_spotted_iff` says which they are,
  `pairwise_spotted` that they stand in the order of their spots.
* `Mesh.spottedNumbers` — those of them that are numbers; `flatMap_candidates` says that they are
  the candidates of the ranks, put one after the other.
-/

/-- A place in the samples of a group of ranks. -/
structure Spot where
  rank : Nat
  /-- The place of the block among those of its rank. -/
  block : Nat
  /-- The place of the sample in its block. -/
  index : Nat
deriving DecidableEq

namespace Spot

/-- The order of spots: by rank, then by block, then by index. -/
def Before (s t : Spot) : Prop :=
  s.rank < t.rank ∨ s.rank = t.rank ∧ (s.block < t.block ∨ s.block = t.block ∧ s.index < t.index)

/-- Of two spots only one is before the other. -/
theorem Before.asymm {s t : Spot} (h : s.Before t) : ¬t.Before s := by
  unfold Before at *
  omega

/-- The order of spots is total. -/
theorem before_trichotomy (s t : Spot) : s.Before t ∨ s = t ∨ t.Before s := by
  obtain ⟨r, b, i⟩ := s
  obtain ⟨r', b', i'⟩ := t
  simp only [Before, mk.injEq]
  omega

end Spot

/-! ### Lists in a list -/

section Numbered

variable {α β : Type} {R : β → β → Prop}

/-- Numbered pieces are put together to a list in order if each piece is, and all of a piece stands
    before all of the later ones. -/
theorem pairwise_flatMap_zipIdx {l : List α} {f : α × Nat → List β}
    (hpiece : ∀ a i, (f (a, i)).Pairwise R)
    (hacross : ∀ a b i j, i < j → ∀ x ∈ f (a, i), ∀ y ∈ f (b, j), R x y) :
    (l.zipIdx.flatMap f).Pairwise R := by
  rw [List.pairwise_flatMap]
  refine ⟨fun p _ => hpiece p.1 p.2, ?_⟩
  rw [List.pairwise_iff_getElem]
  intro i j hi hj hij
  simp only [List.getElem_zipIdx, Nat.zero_add]
  exact hacross _ _ i j hij

/-- A map that forgets the numbers of numbered pieces. -/
theorem map_flatMap_zipIdx {γ : Type} (l : List α) (f : α × Nat → List β) (g : β → γ)
    (h : α → List γ) (hpiece : ∀ a i, (f (a, i)).map g = h a) :
    (l.zipIdx.flatMap f).map g = l.flatMap h := by
  rw [List.map_flatMap]
  calc l.zipIdx.flatMap (fun p => (f p).map g)
      = l.zipIdx.flatMap (fun p => h p.1) := by
        exact congrArg l.zipIdx.flatMap (funext fun p => hpiece p.1 p.2)
    _ = (l.zipIdx.map Prod.fst).flatMap h := by rw [List.flatMap_map]
    _ = l.flatMap h := by rw [List.zipIdx_map_fst]

end Numbered

/-! ### Samples with their spots -/

/-- The point of the sample with an index: the vertex or the element of the same index, as the
    association of the field says. -/
def Block.point? (b : Block) (association : Association) (index : Nat) : Option Vec3 :=
  match association with
  | .vertex => b.vertices[index]?
  | .element => b.elements[index]?

/-- The positions of an association are those points. -/
theorem Block.getElem?_positions (b : Block) (association : Association) (index : Nat) :
    (b.positions association)[index]? = b.point? association index := by
  cases association <;> rfl

/-- The samples of a field in a block with their points; a block without the field has none. -/
def Block.located (b : Block) (field : String) (decl : FieldDecl) : List Located :=
  match b.fields.get? field with
  | none => []
  | some values => Located.ofSamples values (b.positions decl.association)

namespace Mesh

/-- The sample of a field at a spot of a group of ranks, with the entry of the same index among the
    points of its block; the origin stands in where there is no such entry. -/
def sampleAt? (meshes : List Mesh) (field : String) (decl : FieldDecl) (s : Spot) :
    Option Located := do
  let m ← meshes[s.rank]?
  let b ← m.blocks[s.block]?
  let values ← b.fields.get? field
  let value ← values[s.index]?
  return ⟨value, (b.point? decl.association s.index).getD .zero⟩

/-- The samples of one rank, in the order of their spots. -/
def spottedOn (field : String) (decl : FieldDecl) : Mesh × Nat → List (Spot × Located)
  | (m, rank) => m.blocks.zipIdx.flatMap fun (b, block) =>
    (b.located field decl).zipIdx.map fun (c, index) => (⟨rank, block, index⟩, c)

/-- The samples of a group of ranks, in the order of their spots. -/
def spotted (meshes : List Mesh) (field : String) (decl : FieldDecl) : List (Spot × Located) :=
  meshes.zipIdx.flatMap (spottedOn field decl)

/-- A sample of a block, and the point that it is paired with. -/
theorem getElem?_located (b : Block) (field : String) (decl : FieldDecl) (i : Nat) :
    (b.located field decl)[i]? = do
      let values ← b.fields.get? field
      let value ← values[i]?
      return ⟨value, (b.point? decl.association i).getD .zero⟩ := by
  unfold Block.located
  cases b.fields.get? field with
  | none => rfl
  | some values =>
    show (Located.ofSamples values (b.positions decl.association))[i]? = _
    rw [Located.getElem?_ofSamples, Block.getElem?_positions, Option.map_eq_bind]
    rfl

/-- The list of the samples of one rank holds at each spot of this rank what its block has there. -/
theorem mem_spottedOn_iff {m : Mesh} {rank : Nat} {field : String} {decl : FieldDecl} {s : Spot}
    {c : Located} :
    (s, c) ∈ spottedOn field decl (m, rank) ↔
      s.rank = rank ∧ ∃ b, m.blocks[s.block]? = some b
        ∧ (b.located field decl)[s.index]? = some c := by
  unfold spottedOn
  simp only [List.mem_flatMap, List.mem_map, Prod.exists, List.mem_zipIdx_iff_getElem?,
    Prod.mk.injEq]
  constructor
  · rintro ⟨b, block, hb, c', index, hc, rfl, rfl⟩
    exact ⟨rfl, b, hb, hc⟩
  · rintro ⟨rfl, b, hb, hc⟩
    exact ⟨b, s.block, hb, c, s.index, hc, rfl, rfl⟩

/-- The list of all samples holds at each spot what is found there. -/
theorem mem_spotted_iff {meshes : List Mesh} {field : String} {decl : FieldDecl} {s : Spot}
    {c : Located} :
    (s, c) ∈ spotted meshes field decl ↔ sampleAt? meshes field decl s = some c := by
  unfold spotted sampleAt?
  -- A rank, a block and an index are enough to find a sample, in the list as by the spot.
  simp only [List.mem_flatMap, Prod.exists, List.mem_zipIdx_iff_getElem?, mem_spottedOn_iff,
    Option.bind_eq_bind, Option.bind_eq_some_iff]
  constructor
  · rintro ⟨m, rank, hm, rfl, b, hb, hc⟩
    rw [getElem?_located] at hc
    simp only [Option.bind_eq_bind, Option.bind_eq_some_iff] at hc
    exact ⟨m, hm, b, hb, hc⟩
  · rintro ⟨m, hm, b, hb, hc⟩
    refine ⟨m, s.rank, hm, rfl, b, hb, ?_⟩
    rw [getElem?_located]
    simpa only [Option.bind_eq_bind, Option.bind_eq_some_iff] using hc

/-- The list of the samples of one rank is in the order of the spots. -/
theorem pairwise_spottedOn (field : String) (decl : FieldDecl) (m : Mesh) (rank : Nat) :
    (spottedOn field decl (m, rank)).Pairwise fun p q => p.1.Before q.1 := by
  apply pairwise_flatMap_zipIdx
  · -- Within a block the index decides.
    intro b block
    rw [List.pairwise_map, List.pairwise_iff_getElem]
    intro i j hi hj hij
    simp only [List.getElem_zipIdx]
    exact .inr ⟨rfl, .inr ⟨rfl, by simpa using hij⟩⟩
  · intro b b' i j hij p hp q hq
    obtain ⟨⟨c, k⟩, -, rfl⟩ := List.mem_map.mp hp
    obtain ⟨⟨c', k'⟩, -, rfl⟩ := List.mem_map.mp hq
    exact .inr ⟨rfl, .inl hij⟩

/-- The list of all samples is in the order of the spots. -/
theorem pairwise_spotted (meshes : List Mesh) (field : String) (decl : FieldDecl) :
    (spotted meshes field decl).Pairwise fun p q => p.1.Before q.1 := by
  refine pairwise_flatMap_zipIdx (pairwise_spottedOn field decl) ?_
  intro m m' i j hij p hp q hq
  have hrank : p.1.rank = i := (mem_spottedOn_iff.mp hp).1
  have hrank' : q.1.rank = j := (mem_spottedOn_iff.mp hq).1
  refine .inl ?_
  omega

/-! ### Samples without their spots -/

/-- Without the spots, the list of all samples is that of the blocks of all ranks, which does not
    show where one rank ends and the next one begins. -/
theorem map_snd_spotted (meshes : List Mesh) (field : String) (decl : FieldDecl) :
    (spotted meshes field decl).map Prod.snd
      = (meshes.flatMap (·.blocks)).flatMap (·.located field decl) := by
  rw [List.flatMap_assoc]
  refine map_flatMap_zipIdx _ _ _ _ fun m rank => ?_
  refine map_flatMap_zipIdx _ _ _ _ fun b block => ?_
  rw [List.map_map]
  exact List.zipIdx_map_fst 0 _

/-- The candidates of a rank are the samples of its blocks that are numbers. -/
theorem candidates_eq (m : Mesh) (field : String) (decl : FieldDecl) :
    m.candidates field decl
      = (m.blocks.flatMap (·.located field decl)).filter fun c => !c.value.isNaN := by
  unfold candidates samples
  congr 1
  induction m.blocks with
  | nil => rfl
  | cons b rest ih =>
    rw [List.flatMap_cons, ← ih, Block.located, List.filterMap_cons]
    cases b.fields.get? field <;> rfl

/-- The samples of a group that are numbers, in the order of their spots. -/
def spottedNumbers (meshes : List Mesh) (field : String) (decl : FieldDecl) :
    List (Spot × Located) :=
  (spotted meshes field decl).filter fun p => !p.2.value.isNaN

/-- The list of all numbers holds at each spot what is found there, if it is a number. -/
theorem mem_spottedNumbers_iff {meshes : List Mesh} {field : String} {decl : FieldDecl} {s : Spot}
    {c : Located} : (s, c) ∈ spottedNumbers meshes field decl ↔
      sampleAt? meshes field decl s = some c ∧ c.value.isNaN = false := by
  rw [spottedNumbers, List.mem_filter, mem_spotted_iff, Bool.not_eq_true']

/-- The list of all numbers is in the order of the spots. -/
theorem pairwise_spottedNumbers (meshes : List Mesh) (field : String) (decl : FieldDecl) :
    (spottedNumbers meshes field decl).Pairwise fun p q => p.1.Before q.1 :=
  (pairwise_spotted meshes field decl).filter _

/-- The candidates of all ranks, one rank after the other, depend on the blocks of all ranks alone,
    not on the ranks that own them. -/
theorem flatMap_candidates_eq (meshes : List Mesh) (field : String) (decl : FieldDecl) :
    meshes.flatMap (·.candidates field decl)
      = ((meshes.flatMap (·.blocks)).flatMap (·.located field decl)).filter
          fun c => !c.value.isNaN := by
  rw [List.flatMap_assoc, List.filter_flatMap]
  simp only [candidates_eq]

/-- They are the samples that are numbers, in the order of their spots. -/
theorem flatMap_candidates (meshes : List Mesh) (field : String) (decl : FieldDecl) :
    meshes.flatMap (·.candidates field decl)
      = (spottedNumbers meshes field decl).map Prod.snd := by
  rw [flatMap_candidates_eq, ← map_snd_spotted, List.filter_map]
  rfl

end Mesh

end MeshExpr
