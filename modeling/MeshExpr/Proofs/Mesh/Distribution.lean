import MeshExpr.Proofs.Collective.Agreement
import MeshExpr.Proofs.Mesh.Extremum

namespace MeshExpr

open Collective

/-!
# One mesh on many ranks

A distribution spreads the blocks of a mesh over the ranks of a group; the declarations and the
state variables are on every rank. Beside the group stands the one rank that owns all blocks. A
program is transparent to a distribution if all ranks of the group come to what this one rank comes
to alone.

* `Distribution` — the blocks of every rank, `Distribution.ranks` and `Distribution.whole` the
  meshes of the group and of the one rank.
* `Transparent.bind`, `Transparent.exceptBind` and `Transparent.foldlM` — transparent programs can
  be put together to longer ones.
* `Distribution.transparent_extremum` — the search for an extremum is transparent.
-/

/-- A mesh whose blocks are spread over the ranks of a group. -/
structure Distribution where
  schema : Named FieldDecl
  state : Named StateVar
  /-- The blocks of each rank. -/
  domains : List (List Block)

namespace Distribution

variable {α β ε : Type} (d : Distribution)

/-- What each rank of the group owns. -/
def ranks : List Mesh := d.domains.map fun blocks => ⟨d.schema, blocks, d.state⟩

/-- The mesh on one rank that owns all blocks. -/
def whole : Mesh := ⟨d.schema, d.domains.flatten, d.state⟩

/-- The same mesh with all blocks on one rank. -/
def gathered : Distribution := { d with domains := [d.domains.flatten] }

variable {d}

/-- There is a rank for each of the lists of blocks. -/
theorem length_ranks : d.ranks.length = d.domains.length := List.length_map _

/-- All ranks have the declarations of the group. -/
theorem schema_of_mem {m : Mesh} (hm : m ∈ d.ranks) : m.schema = d.schema := by
  obtain ⟨blocks, -, rfl⟩ := List.mem_map.mp hm
  rfl

/-- All ranks have its state variables. -/
theorem state_of_mem {m : Mesh} (hm : m ∈ d.ranks) : m.state = d.state := by
  obtain ⟨blocks, -, rfl⟩ := List.mem_map.mp hm
  rfl

/-- The ranks together have the blocks that one rank would have. -/
theorem flatMap_blocks : d.ranks.flatMap (·.blocks) = d.whole.blocks := by
  unfold ranks whole
  rw [List.flatMap_map, List.flatMap_def, List.map_id']

/-- Gathering a group does not change what one rank would have. -/
theorem whole_gathered : d.gathered.whole = d.whole := by
  unfold gathered whole
  rw [List.flatten_singleton]

/-- The blocks of `Mesh.twoRanks`. -/
def twoRanks : Distribution :=
  ⟨(∅ : Named FieldDecl).insert "e" ⟨.vertex, 1⟩, ∅, Mesh.twoRanks.map (·.blocks)⟩

/-! ### Transparent programs -/

/-- All ranks of the group come to what the one rank that owns all blocks comes to alone. -/
def Transparent (d : Distribution) (program : Mesh → Collective α) : Prop :=
  Agree d.ranks (· = (program d.whole).runAlone) program

/-- A program is transparent if a group comes to the same result when all blocks are on one rank. -/
theorem transparent_of_agree {program : Mesh → Collective α} {a : α}
    (h : Agree d.ranks (· = a) program) (hgathered : Agree d.gathered.ranks (· = a) program) :
    d.Transparent program := by
  obtain ⟨a', hrun, rfl⟩ := hgathered
  obtain rfl : (program d.whole).runAlone = a' := by
    have halone := (runRanks_singleton (program d.whole)).symm.trans hrun
    simpa [gathered, ranks] using halone
  exact h

namespace Transparent

/-- A program without an exchange does not depend on the ranks. -/
theorem done (a : α) : d.Transparent fun _ => .done a := Agree.done rfl

/-- A program that is the same on every rank as another one. -/
theorem congr {program program' : Mesh → Collective α} (h : d.Transparent program)
    (hranks : ∀ m ∈ d.ranks, program' m = program m) (hwhole : program' d.whole = program d.whole) :
    d.Transparent program' := by
  unfold Transparent
  rw [hwhole]
  exact Agree.congr h hranks

/-- Two programs one after the other, of which the second one may go on with any result. -/
theorem bind {program : Mesh → Collective α} {f : Mesh → α → Collective β}
    (h : d.Transparent program) (hf : ∀ a, d.Transparent (f · a)) :
    d.Transparent fun m => program m >>= f m := by
  unfold Transparent
  rw [runAlone_bind]
  refine Agree.bind h fun a ha => ?_
  subst ha
  exact hf _

/-- The same for programs that may fail. -/
theorem exceptBind {program : Mesh → ExceptT ε Collective α}
    {f : Mesh → α → ExceptT ε Collective β} (h : d.Transparent fun m => (program m).run)
    (hf : ∀ a, d.Transparent fun m => (f m a).run) :
    d.Transparent fun m => (program m >>= f m).run := by
  simp only [ExceptT.run_bind]
  refine h.bind fun result => ?_
  cases result with
  | error e => exact done _
  | ok a => exact hf a

/-- Errors that are made into others do not depend on the ranks. -/
theorem adapt {program : Mesh → ExceptT ε Collective α} {ε' : Type} (f : ε → ε')
    (h : d.Transparent fun m => (program m).run) :
    d.Transparent fun m => ((program m).adapt f).run :=
  h.bind fun _ => done _

/-- A loop over the same list on all ranks is transparent if its body is. -/
theorem foldlM {f : Mesh → β → α → ExceptT ε Collective β} {l : List α} {b : β}
    (h : ∀ b, ∀ a ∈ l, d.Transparent fun m => (f m b a).run) :
    d.Transparent fun m => (l.foldlM (f m) b).run := by
  induction l generalizing b with
  | nil => exact done _
  | cons a rest ih =>
    simp only [List.foldlM_cons]
    refine (h b a List.mem_cons_self).exceptBind fun b' => ih fun b a ha => ?_
    exact h b a (List.mem_cons_of_mem _ ha)

end Transparent

/-! ### Extrema -/

variable {field : String} {decl : FieldDecl}

/-- All ranks of the group find the extremum of the field over all blocks. -/
theorem agree_extremum (which : Extreme) (hdecl : d.schema.get? field = some decl)
    (hscalar : decl.components = 1) :
    Agree d.ranks (· = Mesh.extremumOf which field (d.whole.candidates field decl)) fun m =>
      (m.extremum which field).run := by
  refine ⟨_, Mesh.runRanks_extremum which hscalar fun m hm => schema_of_mem hm ▸ hdecl, ?_⟩
  rw [Mesh.flatMap_candidates_eq, flatMap_blocks, Mesh.candidates_eq]

/-- **Extrema do not depend on the ranks.** -/
theorem transparent_extremum (which : Extreme) (hdecl : d.schema.get? field = some decl)
    (hscalar : decl.components = 1) :
    d.Transparent fun m => (m.extremum which field).run := by
  have hgathered := agree_extremum (d := d.gathered) which hdecl hscalar
  rw [whole_gathered] at hgathered
  exact transparent_of_agree (agree_extremum which hdecl hscalar) hgathered

end Distribution

end MeshExpr
