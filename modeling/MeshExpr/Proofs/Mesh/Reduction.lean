import MeshExpr.Mesh.Average
import MeshExpr.Proofs.Collective.Agreement

namespace MeshExpr

/-!
# Reductions on all ranks of a group

A reduction exchanges once. On a group whose exchange answers all ranks with all parts in the order
of the ranks, every rank combines the same parts, so every rank comes to the same result, and the
result is made from what the ranks have sent.

* `Collective.runRanks_exchange` — a group of programs that exchange once.
* `Reduction.runRanks_eq` — the same for reductions, where every part has the agreed width.
* `Mesh.fieldAvg_eq` — the average of a field as a reduction of this form.
-/

namespace Collective

variable {α ι : Type}

/-- Programs that exchange once, and go on in the same way, all come to what is made of the parts of
    all ranks. -/
theorem runRanks_exchange (ranks : List ι) (sent : ι → List Float) (next : Answer → α) :
    runRanks (ranks.map fun i => .exchange (sent i) fun answer => .done (next answer))
      = some (List.replicate ranks.length (next (.ok (ranks.map sent)))) := by
  cases ranks with
  | nil => rfl
  | cons lowest others =>
    have hparts : (others.map fun i => exchange (sent i) fun answer => done (next answer)).mapM
        contribution? = some (others.map sent) := by
      rw [mapM_eq_some_iff, List.forall₂_map_left_iff, List.forall₂_map_right_iff]
      exact List.forall₂_same.mpr fun _ _ => rfl
    show lockstep (.exchange (sent lowest) fun answer => .done (next answer)) _ = _
    rw [lockstep, hparts]
    -- Once all parts are there, every program is done with the same result.
    show lockstep (.done (next (.ok (sent lowest :: others.map sent)))) _ = _
    rw [List.map_map]
    exact runRanks_done (lowest :: others) _

end Collective

namespace Mesh

variable {m : Mesh} {field : String} {decl : FieldDecl}

/-- A field that is declared with one component has a declaration that a reduction accepts. -/
theorem scalarDecl_eq_ok (hdecl : m.schema.get? field = some decl)
    (hscalar : decl.components = 1) : m.scalarDecl field = .ok decl := by
  unfold scalarDecl
  rw [hdecl]
  exact if_pos hscalar

/-- A rank sends the sum of its values and how many it has counted, and the average is made of the
    totals of all ranks. -/
theorem fieldAvg_eq (hdecl : m.schema.get? field = some decl) (hscalar : decl.components = 1) :
    m.fieldAvg field
      = Reduction.exchange [sum (m.values field decl), countAll (m.values field decl)] >>=
        fun parts => Reduction.ofExcept
          (if (total parts).2 > 0 then .ok ((total parts).1 / (total parts).2)
            else .error (.emptyField field)) := by
  unfold fieldAvg
  rw [scalarDecl_eq_ok hdecl hscalar]
  show (Reduction.exchange _ >>= fun parts => _) = _
  congr 1
  funext parts
  split
  rename_i sum count htotal
  rw [htotal]
  split <;> rfl

end Mesh

namespace Reduction

variable {α : Type}

/-- An answer whose parts are all of the agreed width is read as it is. -/
theorem readAnswer_eq_ok {width : Nat} {parts : List (List Float)}
    (h : ∀ part ∈ parts, part.length = width) : readAnswer width (.ok parts) = .ok parts := by
  show parts.mapM (expectWidth width) = .ok parts
  rw [mapM_eq_ok_iff]
  refine List.forall₂_same.mpr fun part hpart => ?_
  unfold expectWidth
  rw [if_pos (h part hpart)]

/-- A reduction that exchanges once, and combines what it gets. -/
theorem run_exchange_bind (sent : List Float) (combine : List (List Float) → Except MeshError α) :
    (exchange sent >>= fun parts => ofExcept (combine parts)).run
      = .exchange sent fun answer => .done (readAnswer sent.length answer >>= combine) := by
  refine congrArg (Collective.exchange sent) (funext fun answer => ?_)
  show (ExceptT.bindCont _ (readAnswer sent.length answer)) = _
  cases readAnswer sent.length answer <;> rfl

/-- A group of reductions that send parts of one width, and combine what they get in the same way,
    all come to the combination of the parts of all ranks. -/
theorem runRanks_eq {meshes : List Mesh} {r : Mesh → Reduction α} {sent : Mesh → List Float}
    {width : Nat} {combine : List (List Float) → Except MeshError α}
    (hr : ∀ m ∈ meshes, r m = exchange (sent m) >>= fun parts => ofExcept (combine parts))
    (hwidth : ∀ m ∈ meshes, (sent m).length = width) :
    Collective.runRanks (meshes.map fun m => (r m).run)
      = some (List.replicate meshes.length (combine (meshes.map sent))) := by
  have hprograms : ∀ m ∈ meshes, (r m).run = .exchange (sent m) fun answer =>
      .done (readAnswer width answer >>= combine) := by
    intro m hm
    rw [hr m hm, ← hwidth m hm, run_exchange_bind]
  -- All parts have the width that each rank expects.
  have hparts : ∀ part ∈ meshes.map sent, part.length = width := by
    intro part hpart
    obtain ⟨m, hm, rfl⟩ := List.mem_map.mp hpart
    exact hwidth m hm
  rw [List.map_congr_left hprograms, Collective.runRanks_exchange, readAnswer_eq_ok hparts]
  rfl

end Reduction

end MeshExpr
