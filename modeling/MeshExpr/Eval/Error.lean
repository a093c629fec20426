import MeshExpr.Filter.Catalog
import MeshExpr.Mesh.Basic

namespace MeshExpr

/-!
# Errors of evaluation

Why a filter gives no value, with one constructor for each cause.

* `Mismatch` says how an argument fails to have the kind that a filter needs.
* `EvalError.message` is the text of an error.
-/

/-- How the arguments of a filter fail to have the kinds that it needs. -/
inductive Mismatch where
  /-- The argument of a port is missing or empty. -/
  | notSupplied (port : String)
  | notScalar (port : String) (given : ValueKind)
  | notField (port : String) (given : ValueKind)
  | notVector (given : ValueKind)
  /-- One operand is a vector and the other one is not. -/
  | mixed (op : Operator) (lhs rhs : ValueKind)
  /-- No operand is a vector, and one has no numerical reading. -/
  | notNumeric (op : Operator) (lhs rhs : ValueKind)
deriving DecidableEq

namespace Mismatch

/-- The text of a mismatch. -/
def message : Mismatch → String
  | notSupplied port => s!"input `{port}` was not supplied"
  | notScalar port given => s!"input `{port}` must be a scalar, got {given.name}"
  | notField port given => s!"input `{port}` must name a field, got {given.name}"
  | notVector given => s!"input must be a vector, got {given.name}"
  | mixed op lhs rhs =>
    s!"mixed vector and scalar operands ({lhs.name} {op.token} {rhs.name})"
  | notNumeric op lhs rhs =>
    s!"operator `{op.token}` needs scalar or vector operands, got {lhs.name} and {rhs.name}"

end Mismatch

/-- The kinds of parameters that a filter can ask for. -/
inductive ParamKind where
  | name
  | int
  | float
  | operator
deriving DecidableEq, Repr

namespace ParamKind

/-- The name of a kind of parameter. -/
def text : ParamKind → String
  | name => "name"
  | int => "int"
  | float => "float"
  | operator => "operator"

end ParamKind

/-- How many bins a histogram may have. -/
def maxBins : Nat := 1048576

/-- Why a filter gives no value. -/
inductive EvalError where
  | typeMismatch (filter : Filter) (mismatch : Mismatch)
  /-- An operator that is not defined between vectors. -/
  | unsupportedOperator (op : Operator)
  | missingDataset (filter : Filter)
  | unknownField (filter : Filter) (field : String) (known : List String)
  | nonScalarField (filter : Filter) (field : String)
  /-- The lower bound is not below the upper one. -/
  | range (filter : Filter) (minVal maxVal : Float)
  | invalidBinCount (filter : Filter) (bins : Int32)
  | unknownIdentifier (name : String)
  /-- A name whose log has no entry. -/
  | emptyHistory (name : String)
  | missingAttribute (filter : Filter) (name : String)
  | missingStateVar (filter : Filter) (name : String)
  | nonNumericStateVar (filter : Filter) (name : String)
  | divisionByZero
  | integerOverflow (lhs : Int32) (op : Operator) (rhs : Int32)
  | paramKindMismatch (filter : Filter) (expected : ParamKind)
  | mesh (error : MeshError)
deriving DecidableEq

namespace EvalError

/-- Why an operator is not defined between vectors. -/
def unsupportedReason (op : Operator) : String :=
  match op.family with
  | .arithmetic => "only `+` and `-` are defined between vectors"
  | .comparison => "comparison operators are not defined on vectors"

/-- The text of an error. -/
def message : EvalError → String
  | typeMismatch filter mismatch => s!"{filter.name}: {mismatch.message}"
  | unsupportedOperator op => s!"unsupported operator `{op.token}`: {unsupportedReason op}"
  | missingDataset filter => s!"{filter.name}: missing dataset"
  | unknownField filter field known =>
    let known := " ".intercalate known
    s!"{filter.name}: dataset does not contain field `{field}` (known fields: [{known}])"
  | nonScalarField filter field => s!"{filter.name}: field `{field}` is not a scalar"
  | range filter minVal maxVal =>
    let low := floatText minVal
    let high := floatText maxVal
    s!"{filter.name}: min value ({low}) must be smaller than max ({high})"
  | invalidBinCount filter bins =>
    s!"{filter.name}: bin count must be in 1..={maxBins}, got {bins.toInt}"
  | unknownIdentifier name => s!"unknown expression identifier `{name}`"
  | emptyHistory name => s!"expression identifier `{name}` has no recorded entries"
  | missingAttribute filter name =>
    s!"{filter.name}: input does not have a `{name}` attribute"
  | missingStateVar filter name => s!"{filter.name}: dataset has no state variable `{name}`"
  | nonNumericStateVar filter name =>
    s!"{filter.name}: state variable `{name}` is not a number"
  | divisionByZero => "integer division by zero"
  | integerOverflow lhs op rhs =>
    s!"integer overflow in `{lhs.toInt} {op.token} {rhs.toInt}`"
  | paramKindMismatch filter expected =>
    s!"parameter kind mismatch for filter `{filter.name}`: expected {expected.text}"
  | mesh error => error.message

end EvalError

end MeshExpr
