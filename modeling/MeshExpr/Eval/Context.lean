import MeshExpr.Collective.Basic
import MeshExpr.Eval.Error
import MeshExpr.History
import MeshExpr.Mesh.Reduction

namespace MeshExpr

/-!
# What filters see

A filter sees its arguments and its parameter, and besides these a context: the mesh of this rank,
the history, and the name of the state variable that counts the cycles.

* `Eval` is the type of what a filter computes, a collective program that may fail.
* `Inputs.required`, `Inputs.scalar` and their like take the argument of a port.
-/

/-- What a filter may look at besides its arguments. -/
structure Context where
  /-- The mesh of this rank, if there is one. Filters read no other kind of data; how the exchanges
      of its reductions are answered is left open. -/
  mesh : Option Mesh := none
  history : History := .empty
  /-- The state variable that the filter `cycle` reads. -/
  cycleVar : String := Mesh.cycleName
deriving Inhabited

/-- What a filter computes. -/
abbrev Eval (α : Type) := ExceptT EvalError Collective α

namespace Eval

variable {α : Type}

/-- A step that needs no exchange. -/
def ofExcept (e : Except EvalError α) : Eval α := ExceptT.mk (.done e)

/-- A reduction over the mesh. -/
def ofReduction (r : Reduction α) : Eval α :=
  ExceptT.mk (r.run >>= fun result => .done (result.mapError .mesh))

end Eval

/-- The arguments of a filter in the order of its ports. -/
abbrev Inputs := List Value

namespace Inputs

/-- The argument at a port; the empty value stands for no argument. -/
def optional? (inputs : Inputs) (slot : Nat) : Option Value :=
  inputs[slot]?.filter fun value => !value.isEmpty

/-- The argument at a port that needs one. -/
def required (inputs : Inputs) (slot : Nat) (filter : Filter) (port : String) :
    Except EvalError Value :=
  match inputs.optional? slot with
  | some value => .ok value
  | none => .error (.typeMismatch filter (.notSupplied port))

/-- What a view shows of a value. -/
def view {α : Type} (see : Value → Option α) (filter : Filter) (mismatch : ValueKind → Mismatch)
    (value : Value) : Except EvalError α :=
  match see value with
  | some a => .ok a
  | none => .error (.typeMismatch filter (mismatch value.kind))

/-- The number at a port that needs a scalar. -/
def scalar (inputs : Inputs) (slot : Nat) (filter : Filter) (port : String) :
    Except EvalError Number := do
  view Value.number? filter (.notScalar port) (← inputs.required slot filter port)

/-- The number at a port that needs a scalar or a boolean. -/
def numeric (inputs : Inputs) (slot : Nat) (filter : Filter) (port : String) :
    Except EvalError Number := do
  view Value.numeric? filter (.notScalar port) (← inputs.required slot filter port)

/-- The number at a port that may be left out. -/
def scalar? (inputs : Inputs) (slot : Nat) (filter : Filter) (port : String) :
    Except EvalError (Option Number) :=
  match inputs.optional? slot with
  | none => .ok none
  | some value => some <$> view Value.number? filter (.notScalar port) value

end Inputs

/-- The mesh that a filter needs. -/
def Context.requireMesh (ctx : Context) (filter : Filter) : Except EvalError Mesh :=
  match ctx.mesh with
  | some mesh => .ok mesh
  | none => .error (.missingDataset filter)

end MeshExpr
