import MeshExpr.Eval.Compute
import MeshExpr.Plan.Basic

namespace MeshExpr

/-!
# Evaluating plans

The nodes of a plan are computed in the order of execution, each from the values of the nodes that
feed it. All nodes are computed, also those that the output does not depend on, and the first one
that fails ends the evaluation.

* `Plan.runNode` computes one node, `Plan.evaluate` the whole plan.
* `Failure` says which node of which expression failed, and why.
-/

/-- A node that failed. -/
structure Failure where
  expression : String
  node : String
  filter : Filter
  error : EvalError
deriving DecidableEq

namespace Failure

/-- The text of a failure. -/
def message (f : Failure) : String :=
  s!"expression `{f.expression}`, node `{f.node}` ({f.filter.name}) failed: {f.error.message}"

end Failure

namespace Plan

/-- The value of a node; a node that has not run reads as empty. -/
def valueAt (values : List Value) (id : Nat) : Value := values[id]?.getD .empty

/-- Computes a node and files its value. -/
def runNode (p : Plan) (ctx : Context) (values : List Value) (id : Nat) :
    ExceptT Failure Collective (List Value) :=
  match p.nodes[id]? with
  | none => return values
  | some node => do
    let value ← (node.filter.compute ctx (node.inputs.map (valueAt values)) node.param).adapt
      fun error => ⟨p.name, node.name, node.filter, error⟩
    return values.set id value

/-- The value of a plan. -/
def evaluate (p : Plan) (ctx : Context) : ExceptT Failure Collective Value := do
  let values ← p.order.foldlM (p.runNode ctx) (List.replicate p.nodes.length .empty)
  -- The output of a graph that was planned is one of the nodes that have run.
  return valueAt values p.output

end Plan

end MeshExpr
