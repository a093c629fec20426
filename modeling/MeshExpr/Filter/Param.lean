import MeshExpr.Filter.Operator
import MeshExpr.Json.Printer
import MeshExpr.Number
import MeshExpr.Text.Blank

namespace MeshExpr

/-!
# Parameters of filters

A filter takes at most one parameter, given in the graph as a JSON value under a fixed key.

* `Param` is a checked parameter, `ParamSpec` says which one a filter wants.
* `ParamSpec.violations` lists everything that is wrong with the given parameters: each key that
  the filter does not have, then what is wrong with the one that it does have.
* `ParamSpec.check` is the parameter if nothing is wrong; `ParamSpec.validate` is the same check
  with a list of messages that is passed on.
-/

/-- The parameters of a node as the graph gives them. -/
abbrev RawParams := Named Json

/-- A parameter that was checked. -/
inductive Param where
  | nothing
  | name (s : String)
  | int (n : Int32)
  | float (x : Float)
  | op (op : Operator)
deriving DecidableEq, Inhabited

/-- The parameter that a filter wants. -/
inductive ParamSpec where
  /-- No parameter. -/
  | nothing
  /-- A string under `value` that is not blank. -/
  | name
  /-- A number under `value` that lies within the bounds of thirty-two bits; its integer part is
      taken. -/
  | int
  /-- A number under `value`. -/
  | float
  /-- The token of an operator under `op_string`. -/
  | op
deriving DecidableEq, Repr

/-- One thing that is wrong with given parameters. -/
inductive Violation where
  /-- A key that the filter does not have. -/
  | unexpected (key : String)
  /-- No string where one is required. -/
  | missingString (key : String)
  /-- No number where one is required. -/
  | missingNumber (key : String)
  /-- A string of blanks. -/
  | blankString (key : String)
  /-- Another value than a string. -/
  | notString (key : String) (given : Json)
  /-- Another value than a number. -/
  | notNumber (key : String) (given : Json)
  /-- A number below the least integer of thirty-two bits or above the greatest. It is the number
      itself that must lie between them: `2147483647.5` does not, although its integer part does. -/
  | outOfRange (key : String) (given : Json)
  /-- A token that names no operator. -/
  | unsupportedOperator (token : String)
deriving Inhabited

namespace Violation

/-- The text of a violation. -/
def message : Violation → String
  | unexpected key => s!"unexpected parameter '{key}'"
  | missingString key => s!"missing required string parameter '{key}'"
  | missingNumber key => s!"missing required numeric parameter '{key}'"
  | blankString key => s!"string parameter '{key}' must not be empty"
  | notString key given => s!"parameter '{key}' must be a string, got `{given.render}`"
  | notNumber key given => s!"parameter '{key}' must be numeric, got `{given.render}`"
  | outOfRange key given => s!"integer parameter '{key}' out of range: {given.render}"
  | unsupportedOperator token => s!"unsupported operator `{token}`"

end Violation

namespace ParamSpec

/-- The key of a literal, a name or an identifier. -/
def valueKey : String := "value"

/-- The key of an operator. -/
def opKey : String := "op_string"

/-- The keys that a filter has. -/
def keys : ParamSpec → List String
  | nothing => []
  | name | int | float => [valueKey]
  | op => [opKey]

/-- The integer part of a number, if the number lies within the bounds of thirty-two bits. -/
def integerPart? : Json → Option Int32
  | .int n => Number.ofInt? n
  | .float x =>
    if x.isFinite && Decimal.inBounds Number.minInt32 Number.maxInt32 x then
      some (Int32.ofInt (Decimal.truncate x))
    else none
  | _ => none

/-- Reads the parameter under the key that the filter has. -/
def read (spec : ParamSpec) (params : RawParams) : Except Violation Param :=
  match spec with
  | nothing => .ok .nothing
  | name => match params.get? valueKey with
    | none => .error (.missingString valueKey)
    | some (.string s) => if Text.isBlank s then .error (.blankString valueKey) else .ok (.name s)
    | some given => .error (.notString valueKey given)
  | int => match params.get? valueKey with
    | none => .error (.missingNumber valueKey)
    | some given =>
      -- What is no number at all gets another message than a number out of range.
      if given.float?.isNone then .error (.notNumber valueKey given)
      else match integerPart? given with
        | some n => .ok (.int n)
        | none => .error (.outOfRange valueKey given)
  | float => match params.get? valueKey with
    | none => .error (.missingNumber valueKey)
    | some given => match given.float? with
      | some x => .ok (.float x)
      | none => .error (.notNumber valueKey given)
  | op => match params.get? opKey with
    | none => .error (.missingString opKey)
    | some (.string token) => match Operator.ofToken? token with
      | some operator => .ok (.op operator)
      | none => .error (.unsupportedOperator token)
    | some given => .error (.notString opKey given)

/-- The keys that the filter does not have, in order. -/
def foreignKeys (spec : ParamSpec) (params : RawParams) : List String :=
  params.names.filter fun key => !spec.keys.contains key

/-- Everything that is wrong with given parameters. -/
def violations (spec : ParamSpec) (params : RawParams) : List Violation :=
  (spec.foreignKeys params).map .unexpected
    ++ match spec.read params with
      | .ok _ => []
      | .error violation => [violation]

/-- The parameter, or everything that is wrong. -/
def check (spec : ParamSpec) (params : RawParams) : Except (List Violation) Param :=
  match spec.foreignKeys params, spec.read params with
  | [], .ok param => .ok param
  | _, _ => .error (spec.violations params)

/-- Checks parameters in the course of a longer check, in which messages were noted earlier: what is
    wrong is noted behind these as it is found, and the parameter is kept if nothing was noted. -/
def validate (spec : ParamSpec) (params : RawParams) (earlier : List String) :
    Option Param × List String :=
  -- The foreign keys are noted first, and the required one is read even if there are some.
  let noted := params.names.foldl (fun noted key =>
    if spec.keys.contains key then noted
    else noted ++ [(Violation.unexpected key).message]) earlier
  let (param, noted) := match spec.read params with
    | .ok param => (some param, noted)
    | .error violation => (none, noted ++ [violation.message])
  -- The messages are only counted: those from earlier nodes must not matter here.
  if noted.length = earlier.length then (param, noted) else (none, noted)

end ParamSpec

end MeshExpr
