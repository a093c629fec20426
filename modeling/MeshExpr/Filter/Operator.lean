namespace MeshExpr

/-!
# Binary operators

The closed set of operators that an expression can apply to two values.

* `Operator.token` is how a graph names an operator, `Operator.ofToken?` finds it again.
* `Operator.family` parts the four operations from the five comparisons.
-/

/-- A binary operator. -/
inductive Operator where
  | add
  | sub
  | mul
  | div
  | lt
  | le
  | gt
  | ge
  | eq
deriving DecidableEq, Repr

namespace Operator

/-- All operators in the order of their numbers. -/
def all : List Operator := [add, sub, mul, div, lt, le, gt, ge, eq]

/-- The token of an operator. -/
def token : Operator → String
  | add => "+"
  | sub => "-"
  | mul => "*"
  | div => "/"
  | lt => "<"
  | le => "<="
  | gt => ">"
  | ge => ">="
  | eq => "=="

/-- The operator of a token. -/
def ofToken? (token : String) : Option Operator := all.find? (·.token == token)

/-- What an operator computes. -/
inductive Family where
  /-- A number from numbers. -/
  | arithmetic
  /-- A truth value. -/
  | comparison
deriving DecidableEq, Repr

/-- The family of an operator. -/
def family : Operator → Family
  | add | sub | mul | div => .arithmetic
  | lt | le | gt | ge | eq => .comparison

/-- The number of an operator. -/
def index (op : Operator) : Nat := all.idxOf op

/-- No operator is missing in the list. -/
theorem mem_all (op : Operator) : op ∈ all := by cases op <;> decide

/-- Each operator is found under its own token. -/
theorem ofToken?_token (op : Operator) : ofToken? op.token = some op := by cases op <;> decide

/-- A token is that of one operator at most. -/
theorem ofToken?_eq_some_iff {token : String} {op : Operator} :
    ofToken? token = some op ↔ op.token = token := by
  constructor
  · intro h
    simpa using List.find?_some h
  · rintro rfl
    exact ofToken?_token op

end Operator

end MeshExpr
