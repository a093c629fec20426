import MeshExpr.Eval.Context

namespace MeshExpr.Operator

/-!
# Operators between values

Scalars and booleans are numbers here. Two integers are combined as integers, and a result beyond
thirty-two bits is an error; as soon as one operand is a float, both are taken as floats and
nothing can go wrong. Between vectors there are only sum and difference.

* `onInts` and `onFloats` combine two numbers of one domain.
* `onNumbers` chooses the domain, `apply` the kind of operands.
-/

/-- A result that thirty-two bits must hold. -/
def checked (op : Operator) (a b : Int32) (result : Int) : Except EvalError Value :=
  match Number.ofInt? result with
  | some n => .ok (.int n)
  | none => .error (.integerOverflow a op b)

/-- Combines two integers; a quotient loses its fraction. -/
def onInts (op : Operator) (a b : Int32) : Except EvalError Value :=
  match op with
  | add => checked add a b (a.toInt + b.toInt)
  | sub => checked sub a b (a.toInt - b.toInt)
  | mul => checked mul a b (a.toInt * b.toInt)
  | div => if b = 0 then .error .divisionByZero else checked div a b (a.toInt.tdiv b.toInt)
  | lt => .ok (.boolean (a < b))
  | le => .ok (.boolean (a ≤ b))
  | gt => .ok (.boolean (b < a))
  | ge => .ok (.boolean (b ≤ a))
  | eq => .ok (.boolean (a == b))

/-- Combines two floats. -/
def onFloats (op : Operator) (a b : Float) : Value :=
  match op with
  | add => .float (a + b)
  | sub => .float (a - b)
  | mul => .float (a * b)
  | div => .float (a / b)
  | lt => .boolean (a < b)
  | le => .boolean (a ≤ b)
  | gt => .boolean (b < a)
  | ge => .boolean (b ≤ a)
  | eq => .boolean (a == b)

/-- Combines two numbers in their common domain. -/
def onNumbers (op : Operator) (a b : Number) : Except EvalError Value :=
  match Number.Domain.of a b with
  | .int => op.onInts a.toInt32 b.toInt32
  | .float => .ok (op.onFloats a.toFloat b.toFloat)

/-- Combines two vectors. -/
def onVectors (op : Operator) (a b : Vec3) : Except EvalError Value :=
  match op with
  | add => .ok (.vector (a.add b))
  | sub => .ok (.vector (a.sub b))
  | _ => .error (.unsupportedOperator op)

/-- Combines two values. -/
def apply (op : Operator) (lhs rhs : Value) : Except EvalError Value :=
  match lhs.vector?, rhs.vector? with
  | some a, some b => op.onVectors a b
  | none, none => match lhs.numeric?, rhs.numeric? with
    | some a, some b => op.onNumbers a b
    | _, _ => .error (.typeMismatch .binaryOp (.notNumeric op lhs.kind rhs.kind))
  | _, _ => .error (.typeMismatch .binaryOp (.mixed op lhs.kind rhs.kind))

end MeshExpr.Operator

namespace MeshExpr.Extremum

/-- The smaller of two numbers in their common domain; a float that is no number gives way to the
    other one. -/
def least (a b : Number) : Number :=
  match Number.Domain.of a b with
  | .int => .int (if b.toInt32 < a.toInt32 then b.toInt32 else a.toInt32)
  | .float =>
    .float (if a.toFloat.isNaN || b.toFloat < a.toFloat then b.toFloat else a.toFloat)

/-- The greater of two numbers in their common domain; a float that is no number gives way to the
    other one. -/
def greatest (a b : Number) : Number :=
  match Number.Domain.of a b with
  | .int => .int (if a.toInt32 < b.toInt32 then b.toInt32 else a.toInt32)
  | .float =>
    .float (if a.toFloat.isNaN || a.toFloat < b.toFloat then b.toFloat else a.toFloat)

end MeshExpr.Extremum
