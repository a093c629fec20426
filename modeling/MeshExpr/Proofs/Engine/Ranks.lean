import MeshExpr.Engine.Basic
import MeshExpr.Proofs.Evaluation.Alike

namespace MeshExpr

open Collective

/-!
# Ranks that perform the same operations

Every rank of a group has an engine of its own and a mesh with its own blocks. If all of them begin
with the same settings and perform the same operations, they never come apart: in front of every
operation their engines are equal, and so is what comes out of it.

* `Rank.Operation` — what a rank can do with its engine and its mesh, `Rank.perform` how it does it.
* `Rank.trace` — what a rank shows of a sequence of operations.
* `Rank.Alike.perform_inStep` — one operation: alike ranks perform it in step, and are alike after
  it.
* `Rank.Alike.trace_inStep` — a sequence of them.
* `Rank.runRanks_trace_eq_replicate` — a group does not stall, and all its ranks show the same.
-/

/-- One rank of a group. -/
structure Rank where
  engine : Engine
  mesh : Mesh

namespace Rank

/-! ### What a rank does -/

/-- An operation that all ranks of a group perform. -/
inductive Operation where
  | load (plan : Plan)
  | loadGraph (g : Graph)
  | record (name : String) (value : Value)
  | setState (name : String) (value : StateVar)
  | setCycle (cycle : Int32)
  /-- A cycle, with the mesh or without. -/
  | executeCycle (withMesh : Bool)

/-- What comes out of an operation. -/
inductive Reply where
  | done
  | loaded (result : Except EngineError Unit)
  | planned (result : Except EngineError Manifest)
  | recorded (result : Except EngineError Unit)
  | report (result : Except EngineError CycleReport)

/-- What a rank shows of an operation. -/
structure Step where
  reply : Reply
  /-- The engine after the operation. -/
  engine : Engine
  /-- How many floats the rank has contributed to each exchange of the operation. -/
  widths : List Nat

/-- The ranks of a group at the beginning, each given by the blocks that it owns. They have new
    engines with the same settings, and share the declarations and the state variables. -/
def group (config : Config) (schema : Named FieldDecl) (state : Named StateVar)
    (domains : List (List Block)) : List Rank :=
  domains.map fun blocks => ⟨.new config, ⟨schema, blocks, state⟩⟩

/-- Performs an operation. -/
def perform (r : Rank) : Operation → Collective (Reply × Rank)
  | .load plan =>
    let (result, engine) := r.engine.load plan
    return (.loaded result, { r with engine })
  | .loadGraph g =>
    let (result, engine) := r.engine.loadGraph g
    return (.planned result, { r with engine })
  | .record name value =>
    let (result, engine) := r.engine.record name value
    return (.recorded result, { r with engine })
  | .setState name value => return (.done, { r with mesh := r.mesh.setState name value })
  | .setCycle cycle => return (.done, { r with mesh := r.mesh.setCycle cycle })
  | .executeCycle withMesh => do
    let (result, engine) ← r.engine.executeCycle (if withMesh then some r.mesh else none)
    return (.report result, { r with engine })

/-- Performs operations one after the other, and shows each of them. -/
def trace (r : Rank) : List Operation → Collective (List Step)
  | [] => return []
  | op :: ops => do
    let ((reply, r), widths) ← (r.perform op).counted
    return ⟨reply, r.engine, widths⟩ :: (← r.trace ops)

/-! ### Alike ranks -/

/-- Two ranks have equal engines and meshes alike. -/
structure Alike (r r' : Rank) : Prop where
  engine : r.engine = r'.engine
  mesh : r.mesh.Alike r'.mesh

end Rank

/-- Meshes that get the same state variable are alike as they were before. -/
theorem Mesh.Alike.setState {m m' : Mesh} (h : m.Alike m') (name : String) (value : StateVar) :
    (m.setState name value).Alike (m'.setState name value) where
  schema := h.schema
  state := by
    unfold Mesh.setState
    rw [h.state]

/-- A cycle is in step on meshes alike. -/
theorem Engine.executeCycle_inStep (e : Engine) {mesh mesh' : Option Mesh}
    (h : Option.Rel Mesh.Alike mesh mesh') :
    InStep Eq (e.executeCycle mesh) (e.executeCycle mesh') := by
  have halike : (e.context mesh).Alike (e.context mesh') := ⟨h, rfl, rfl⟩
  unfold executeCycle
  cases e.ensureUsable with
  | error error => exact .refl _
  | ok _ =>
    dsimp only
    split
    · exact .refl _
    · -- Expression by expression, the ranks exchange as much and come to equal values.
      have hall : InStep Eq (evaluateAll e.plans (e.context mesh)).run
          (evaluateAll e.plans (e.context mesh')).run :=
        InStep.mapM fun p _ => (halike.evaluate_inStep p).exceptBind fun _ => .refl _
      refine hall.bind fun results results' hresults => ?_
      subst hresults
      exact .refl _

namespace Rank.Alike

variable {r r' : Rank}

/-- **One operation.** Alike ranks perform it in step, get the same reply, and are alike after
    it. -/
theorem perform_inStep (h : r.Alike r') (op : Operation) :
    InStep (fun x y => x.1 = y.1 ∧ x.2.Alike y.2) (r.perform op) (r'.perform op) := by
  obtain ⟨engine, mesh⟩ := r
  obtain ⟨engine', mesh'⟩ := r'
  obtain ⟨rfl, hmesh⟩ : engine = engine' ∧ mesh.Alike mesh' := ⟨h.engine, h.mesh⟩
  -- Only a cycle exchanges anything.
  cases op with
  | load plan => exact .done ⟨rfl, rfl, hmesh⟩
  | loadGraph g => exact .done ⟨rfl, rfl, hmesh⟩
  | record name value => exact .done ⟨rfl, rfl, hmesh⟩
  | setState name value => exact .done ⟨rfl, rfl, hmesh.setState name value⟩
  | setCycle cycle => exact .done ⟨rfl, rfl, hmesh.setState _ _⟩
  | executeCycle withMesh =>
    have hgiven : Option.Rel Mesh.Alike (if withMesh then some mesh else none)
        (if withMesh then some mesh' else none) := by
      cases withMesh with
      | true => exact .some hmesh
      | false => exact .none
    refine (engine.executeCycle_inStep hgiven).bind fun outcome outcome' houtcome => ?_
    subst houtcome
    exact .done ⟨rfl, rfl, hmesh⟩

/-- **A sequence of operations.** Alike ranks show the same of it, one step for each operation. -/
theorem trace_inStep (h : r.Alike r') (ops : List Operation) :
    InStep (fun steps steps' => steps = steps' ∧ steps.length = ops.length) (r.trace ops)
      (r'.trace ops) := by
  -- After each operation the ranks are alike again, and the trace goes on from there.
  induction ops generalizing r r' with
  | nil => exact .done ⟨rfl, rfl⟩
  | cons op ops ih =>
    refine (h.perform_inStep op).counted.bind ?_
    rintro ⟨⟨reply, s⟩, widths⟩ ⟨⟨reply', s'⟩, widths'⟩ ⟨⟨hreply, hs⟩, hwidths⟩
    dsimp only at hreply hs hwidths
    subst hreply hwidths
    dsimp only
    rw [hs.engine]
    refine (ih hs).map fun steps steps' hsteps => ?_
    exact ⟨congrArg _ hsteps.1, congrArg (· + 1) hsteps.2⟩

end Rank.Alike

/-- The ranks of a group begin alike, whatever blocks they own. -/
theorem Rank.alike_of_mem_group {config : Config} {schema : Named FieldDecl}
    {state : Named StateVar} {domains : List (List Block)} {r r' : Rank}
    (hr : r ∈ Rank.group config schema state domains)
    (hr' : r' ∈ Rank.group config schema state domains) : r.Alike r' := by
  obtain ⟨blocks, -, rfl⟩ := List.mem_map.mp hr
  obtain ⟨blocks', -, rfl⟩ := List.mem_map.mp hr'
  exact ⟨rfl, rfl, rfl⟩

/-- **The ranks of a group agree.** The group does not stall in any exchange of any operation, and
    all its ranks show the same steps: equal replies, equal engines after each operation, and
    contributions of equal width to equally many exchanges. -/
theorem Rank.runRanks_trace_eq_replicate (config : Config) (schema : Named FieldDecl)
    (state : Named StateVar) (lowest : List Block) (others : List (List Block))
    (ops : List Rank.Operation) :
    ∃ steps, steps.length = ops.length ∧
      runRanks ((Rank.group config schema state (lowest :: others)).map (·.trace ops))
        = some (List.replicate (others.length + 1) steps) := by
  have hinStep : ∀ c ∈ (Rank.group config schema state (lowest :: others)).map (·.trace ops),
      InStep (fun steps steps' => steps = steps' ∧ steps.length = ops.length)
        (Rank.trace ⟨.new config, ⟨schema, lowest, state⟩⟩ ops) c := by
    intro c hc
    obtain ⟨r, hr, rfl⟩ := List.mem_map.mp hc
    exact (Rank.alike_of_mem_group List.mem_cons_self hr).trace_inStep ops
  obtain ⟨steps, results, hresults, hlength, hsame⟩ := lockstep_of_inStep hinStep
  -- What all ranks show is equal to one list of steps.
  have hsteps : results = List.replicate (others.length + 1) steps := by
    refine List.eq_replicate_iff.mpr ⟨by simpa using hlength, fun steps' hmem => ?_⟩
    exact (hsame steps' hmem).1.symm
  obtain ⟨first, hfirst⟩ : ∃ first, first ∈ results := by
    rw [hsteps]
    exact ⟨steps, List.mem_replicate.mpr ⟨by omega, rfl⟩⟩
  exact ⟨steps, (hsame first hfirst).2, hsteps ▸ hresults⟩

end MeshExpr
