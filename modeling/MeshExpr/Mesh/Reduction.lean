import MeshExpr.Collective.Basic
import MeshExpr.Mesh.Basic

namespace MeshExpr

/-!
# Reductions over a mesh

A reduction is a collective program: it summarizes the samples of the rank in a list of floats of
an agreed length, exchanges it, and combines what all ranks sent. Nothing before the exchange but
the schema decides whether it takes place.

* `Reduction` is the type of these programs.
* `Reduction.exchange` is the one exchange of a reduction, with the length of every part checked.
-/

/-- A collective program that may fail with an error of the mesh. -/
abbrev Reduction (α : Type) := ExceptT MeshError Collective α

namespace Reduction

variable {α : Type}

/-- A step that needs no exchange. -/
def ofExcept (e : Except MeshError α) : Reduction α := ExceptT.mk (.done e)

/-- Wants a part of an exchange to have the agreed length. -/
def expectWidth (width : Nat) (part : List Float) : Except MeshError (List Float) :=
  if part.length = width then .ok part
  else .error (.communication (.width width part.length))

/-- Reads the answer of an exchange in which every rank sends `width` floats. An error of the
    exchange is passed on as it is. -/
def readAnswer (width : Nat) : Answer → Except MeshError (List (List Float))
  | .ok parts => parts.mapM (expectWidth width)
  | .error error => .error error

/-- Exchanges `sent` and gives the parts of all ranks, each as long as the one of this rank. -/
def exchange (sent : List Float) : Reduction (List (List Float)) :=
  ExceptT.mk (.exchange sent fun answer => .done (readAnswer sent.length answer))

end Reduction

end MeshExpr
