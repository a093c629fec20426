import MeshExpr.Proofs.Collective.InStep
import MeshExpr.Proofs.Evaluation.Indices
import MeshExpr.Proofs.Planning.Renaming

namespace MeshExpr

/-!
# Values do not depend on names

The names of nodes and the order of edges are gone when a plan is evaluated: a graph that is stated
again has a plan that takes part in the same exchanges and comes to the same value. Only a failure
still knows the name of the node that failed.

* `Plan.runNode_rename` — one node, and `Plan.evaluate_rename` — the whole plan.
* `Collective.runWith_run_adapt` — what such a program sends, and what it comes to.
* `Graph.plan_of_restated` — planning and evaluation of a graph that is stated again.
-/

/-- A failure of a node under another name. -/
def Failure.rename (f : String → String) (failure : Failure) : Failure :=
  { failure with node := f failure.node }

namespace Plan

variable {f : String → String} {p : Plan} {ctx : Context}

/-- A node under another name computes the same value. -/
theorem runNode_rename (values : List Value) (id : Nat) :
    (p.rename f).runNode ctx values id = (p.runNode ctx values id).adapt (·.rename f) := by
  have hnode : (p.rename f).nodes[id]? = p.nodes[id]?.map (·.rename f) := List.getElem?_map ..
  unfold runNode
  rw [hnode]
  cases p.nodes[id]? with
  | none => rfl
  | some node =>
    rw [Option.map_some]
    dsimp only
    rw [adapt_bind, adapt_adapt]
    rfl

/-- **A plan with other names for its nodes is the same program** up to the names in its
    failures. -/
theorem evaluate_rename : (p.rename f).evaluate ctx = (p.evaluate ctx).adapt (·.rename f) := by
  have hrun : ∀ (ids : List Nat) (values : List Value),
      ids.foldlM ((p.rename f).runNode ctx) values
        = (ids.foldlM (p.runNode ctx) values).adapt (·.rename f) := by
    intro ids
    -- Along the order, of which the names are no part.
    induction ids with
    | nil => exact fun _ => rfl
    | cons id rest ih =>
      intro values
      rw [List.foldlM_cons, List.foldlM_cons, adapt_bind, runNode_rename]
      exact congrArg _ (funext ih)
  have hlength : (p.rename f).nodes.length = p.nodes.length := List.length_map _
  unfold evaluate
  rw [adapt_bind, ← hrun, hlength]
  rfl

end Plan

/-- Whatever the exchanges answer, a program with errors under other names sends the same and comes
    to the same value. -/
theorem Collective.runWith_run_adapt {α ε ε' : Type} (x : ExceptT ε Collective α) (f : ε → ε')
    (partner : Nat → List Float → Answer) (start : Nat) :
    (x.adapt f).run.runWith partner start =
      ((x.run.runWith partner start).1.mapError f, (x.run.runWith partner start).2) := by
  rw [run_adapt, runWith_map]

namespace Graph

variable {f : String → String} {g g' : Graph}

/-- **Plans do not depend on the order of the edges or on the names of the nodes.** If a graph is
    stated again, then both graphs have a plan or none has. The plans differ in the names of nodes
    alone, their counts agree, and in every context they are one program: whatever the exchanges
    answer, they send the same and come to the same value. -/
theorem plan_of_restated (h : Restated f g g') :
    ((∃ planned, g'.plan = .ok planned) ↔ ∃ planned, g.plan = .ok planned)
      ∧ ∀ p m, g.plan = .ok (p, m) → g'.plan = .ok (p.rename f, m)
        ∧ ∀ ctx, (p.rename f).evaluate ctx = (p.evaluate ctx).adapt (·.rename f)
          ∧ ∀ partner start,
            (((p.rename f).evaluate ctx).run.runWith partner start).2
                = ((p.evaluate ctx).run.runWith partner start).2
              ∧ ∀ value, (((p.rename f).evaluate ctx).run.runWith partner start).1 = .ok value ↔
                ((p.evaluate ctx).run.runWith partner start).1 = .ok value := by
  refine ⟨h.exists_plan_iff, fun p m hplan => ⟨h.plan_eq hplan, fun ctx =>
    ⟨Plan.evaluate_rename, fun partner start => ?_⟩⟩⟩
  rw [Plan.evaluate_rename, Collective.runWith_run_adapt]
  refine ⟨rfl, fun value => ?_⟩
  cases ((p.evaluate ctx).run.runWith partner start).1 <;> simp [Except.mapError]

/-- A difference of two numbers. -/
def difference : Graph where
  name := "difference"
  nodes := [⟨"one", "expr_integer", Named.ofList [("value", .int 5)]⟩,
    ⟨"two", "expr_integer", Named.ofList [("value", .int 3)]⟩,
    ⟨"difference", "expr_binary_op", Named.ofList [("op_string", .string "-")]⟩]
  edges := [⟨"one", "difference", "lhs"⟩, ⟨"two", "difference", "rhs"⟩]
  output := "difference"

/-- The plan of `difference`. -/
def differencePlan : Plan where
  name := "difference"
  nodes := [⟨0, "one", .integer, .int 5, []⟩, ⟨1, "two", .integer, .int 3, []⟩,
    ⟨2, "difference", .binaryOp, .op .sub, [0, 1]⟩]
  order := [0, 1, 2]
  output := 2

/-- The plan of `difference`. -/
theorem plan_difference : difference.plan = .ok (differencePlan, ⟨3, 2, 0, 2⟩) := by rfl

/-- Gives two numbers each other's name. -/
def exchangeNames (name : String) : String :=
  if name = "one" then "two" else if name = "two" then "one" else name

/-- The same difference, with the names of its operands exchanged and its edges sorted by name. -/
def differenceRestated : Graph where
  name := "difference"
  nodes := [⟨"two", "expr_integer", Named.ofList [("value", .int 5)]⟩,
    ⟨"one", "expr_integer", Named.ofList [("value", .int 3)]⟩,
    ⟨"difference", "expr_binary_op", Named.ofList [("op_string", .string "-")]⟩]
  edges := [⟨"one", "difference", "rhs"⟩, ⟨"two", "difference", "lhs"⟩]
  output := "difference"

/-- No two names become one when two of them change places. -/
theorem exchangeNames_injective : Function.Injective exchangeNames := by
  have hback : Function.LeftInverse exchangeNames exchangeNames := fun name => by
    unfold exchangeNames
    split_ifs <;> simp_all
  exact hback.injective

/-- The graph with the names exchanged and the edges in another order is the same graph stated
    again. -/
theorem restated_difference : Restated exchangeNames difference differenceRestated where
  name_eq := rfl
  nodes_eq := by rfl
  edges_perm := .swap _ _ _
  output_eq := by rfl
  injOn := exchangeNames_injective.injOn

/-- So it has the same plan, up to the names. -/
theorem plan_of_restated_difference :
    Restated exchangeNames difference differenceRestated
      ∧ differenceRestated.plan = .ok (differencePlan.rename exchangeNames, ⟨3, 2, 0, 2⟩) :=
  ⟨restated_difference, ((plan_of_restated restated_difference).2 _ _ plan_difference).1⟩

end Graph

end MeshExpr
