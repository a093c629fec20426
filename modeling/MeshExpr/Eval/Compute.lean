import MeshExpr.Eval.Arithmetic
import MeshExpr.Mesh.Average
import MeshExpr.Mesh.Bins
import MeshExpr.Mesh.Extremum

namespace MeshExpr

/-!
# What each filter computes

* `Filter.compute` computes the value of a filter from its parameter and its arguments.
* `Inputs.field` is what all reductions over a field start with: the argument must name a field,
  there must be a mesh, and the mesh must declare the field with one component. Nothing is
  exchanged before that.
* `Filter.computeHistogram` resolves the bins, then the upper bound, then the lower bound; a bound
  that is left out is the extremum of the field.
-/

/-! ### Leaves -/

/-- The last value recorded under a name. -/
def Context.lookUp (ctx : Context) (name : String) : Except EvalError Value :=
  match ctx.history.log? name with
  | none => .error (.unknownIdentifier name)
  | some log => match log.getLast? with
    | some value => .ok value
    | none => .error (.emptyHistory name)

/-- The number of the cycle. -/
def Context.cycle (ctx : Context) : Except EvalError Value := do
  let mesh ← ctx.requireMesh .cycle
  match mesh.stateVar? ctx.cycleVar with
  | some (.number n) => return .scalar n
  | some (.text _) => throw (.nonNumericStateVar .cycle ctx.cycleVar)
  | none => throw (.missingStateVar .cycle ctx.cycleVar)

/-! ### Reductions over a field -/

/-- The mesh and the scalar field that an argument names. -/
def Inputs.field (inputs : Inputs) (ctx : Context) (slot : Nat) (filter : Filter) (port : String) :
    Except EvalError (Mesh × String) := do
  let field ← Inputs.view Value.fieldRef? filter (.notField port)
    (← inputs.required slot filter port)
  let mesh ← ctx.requireMesh filter
  -- A field that is not declared is reported with those that are, one with several components
  -- without them.
  if !mesh.hasField field then throw (.unknownField filter field mesh.fieldNames)
  if !mesh.isScalarField field then throw (.nonScalarField filter field)
  return (mesh, field)

/-- An extremum with its position attached. -/
def Located.toValue (c : Located) : Value :=
  (Value.float c.value).withAttr positionAttr (.vector c.position)

/-- A histogram with its parameters attached. -/
def Histogram.toValue (h : Histogram) : Value :=
  (((Value.histogram h).withAttr minValAttr (.number (.float h.minVal))).withAttr
    maxValAttr (.number (.float h.maxVal))).withAttr numBinsAttr (.number (.int h.numBins))

namespace Filter

/-- The number of bins of a histogram that is given none. -/
def defaultBins : Int32 := 256

/-- The number of bins, if a histogram may have that many. -/
def binCount? (bins : Int32) : Option Nat :=
  if 1 ≤ bins.toInt ∧ bins.toInt ≤ maxBins then some bins.toInt.toNat else none

/-- A bound of a histogram: the given one, or the extremum of the field. -/
def bound (given : Option Number) (extremum : Reduction Located) : Eval Float :=
  match given with
  | some n => pure n.toFloat
  | none => Located.value <$> Eval.ofReduction extremum

/-- A histogram of a field. -/
def computeHistogram (ctx : Context) (inputs : Inputs) : Eval Value := do
  let (mesh, field) ← Eval.ofExcept (inputs.field ctx 0 .histogram "field")
  let numBins := match ← Eval.ofExcept (inputs.scalar? 1 .histogram "num_bins") with
    | some n => n.toInt32
    | none => defaultBins
  -- The upper bound is resolved before the lower one, and both before the number of bins is
  -- checked. All ranks exchange in this order.
  let maxVal ← bound (← Eval.ofExcept (inputs.scalar? 3 .histogram "max_val")) (mesh.fieldMax field)
  let minVal ← bound (← Eval.ofExcept (inputs.scalar? 2 .histogram "min_val")) (mesh.fieldMin field)
  if !(minVal < maxVal) then throw (.range .histogram minVal maxVal)
  match binCount? numBins with
  | none => throw (.invalidBinCount .histogram numBins)
  | some bins =>
    let counts ← Eval.ofReduction (mesh.fieldHistogram field minVal maxVal bins)
    return (Histogram.mk counts minVal maxVal numBins).toValue

/-! ### All filters -/

/-- The value of a filter from its parameter and its arguments. -/
def compute (filter : Filter) (ctx : Context) (inputs : Inputs) (param : Param) : Eval Value :=
  match filter with
  | nullArg => return .empty
  | identifier => match param with
    | .name s => .ofExcept (ctx.lookUp s)
    | _ => throw (.paramKindMismatch identifier .name)
  | integer => match param with
    | .int n => return .int n
    | _ => throw (.paramKindMismatch integer .int)
  | double => match param with
    | .float x => return .float x
    | _ => throw (.paramKindMismatch double .float)
  | fieldRef => match param with
    | .name s => return .fieldRef s
    | _ => throw (.paramKindMismatch fieldRef .name)
  | binaryOp => match param with
    | .op op => .ofExcept do
      let lhs ← inputs.required 0 binaryOp "lhs"
      let rhs ← inputs.required 1 binaryOp "rhs"
      op.apply lhs rhs
    | _ => throw (.paramKindMismatch binaryOp .operator)
  | scalarMin => .ofExcept do
    let a ← inputs.numeric 0 scalarMin "arg1"
    let b ← inputs.numeric 1 scalarMin "arg2"
    return .scalar (Extremum.least a b)
  | scalarMax => .ofExcept do
    let a ← inputs.numeric 0 scalarMax "arg1"
    let b ← inputs.numeric 1 scalarMax "arg2"
    return .scalar (Extremum.greatest a b)
  | fieldMin => do
    let (mesh, field) ← Eval.ofExcept (inputs.field ctx 0 fieldMin "arg1")
    return (← Eval.ofReduction (mesh.fieldMin field)).toValue
  | fieldMax => do
    let (mesh, field) ← Eval.ofExcept (inputs.field ctx 0 fieldMax "arg1")
    return (← Eval.ofReduction (mesh.fieldMax field)).toValue
  | fieldAvg => do
    let (mesh, field) ← Eval.ofExcept (inputs.field ctx 0 fieldAvg "arg1")
    return .float (← Eval.ofReduction (mesh.fieldAvg field))
  | histogram => computeHistogram ctx inputs
  | position => .ofExcept do
    let value ← inputs.required 0 position "arg1"
    match value.position? with
    | some p => return .vector p
    | none => throw (.missingAttribute position positionAttr)
  | cycle => .ofExcept ctx.cycle
  | vector => .ofExcept do
    let x ← inputs.scalar 0 vector "arg1"
    let y ← inputs.scalar 1 vector "arg2"
    let z ← inputs.scalar 2 vector "arg3"
    return .vector ⟨x.toFloat, y.toFloat, z.toFloat⟩
  | magnitude => .ofExcept do
    let value ← inputs.required 0 magnitude "arg1"
    let v ← Inputs.view Value.vector? magnitude .notVector value
    return .float v.length

end Filter

end MeshExpr
