import MeshExpr.Named
import MeshExpr.Number

namespace MeshExpr

/-!
# Values

What flows from filter to filter: a payload of one of six kinds, and named attributes that a
filter attaches to its result, such as the position of an extremum.

* `Payload` and `Value` are the types; `Value.kind` is the kind of a payload.
* `Value.number?`, `Value.vector?`, … see a value as one kind and give `none` for all others.
* `Value.numeric?` also sees a boolean, as the integer 0 or 1.
* `Value.same` compares two values, floats by their numerical value.
-/

/-- A point or a vector of space. -/
structure Vec3 where
  x : Float
  y : Float
  z : Float
deriving DecidableEq, Inhabited

namespace Vec3

/-- The origin. -/
def zero : Vec3 := ⟨0, 0, 0⟩

/-- The components in order. -/
def toList (v : Vec3) : List Float := [v.x, v.y, v.z]

/-- Componentwise sum. -/
def add (a b : Vec3) : Vec3 := ⟨a.x + b.x, a.y + b.y, a.z + b.z⟩

/-- Componentwise difference. -/
def sub (a b : Vec3) : Vec3 := ⟨a.x - b.x, a.y - b.y, a.z - b.z⟩

/-- The Euclidean length. -/
def length (v : Vec3) : Float := (v.x * v.x + v.y * v.y + v.z * v.z).sqrt

/-- Whether two vectors are equal component by component, by value. -/
def same (a b : Vec3) : Bool := a.x == b.x && a.y == b.y && a.z == b.z

end Vec3

/-- The number of samples in each bin of a range. -/
structure Histogram where
  counts : List Nat
  minVal : Float
  maxVal : Float
  numBins : Int32
deriving DecidableEq, Inhabited

namespace Histogram

/-- The number of samples in all bins. -/
def total (h : Histogram) : Nat := h.counts.foldl (· + ·) 0

/-- The width of one bin; a histogram without bins is taken to have one. -/
def binWidth (h : Histogram) : Float :=
  (h.maxVal - h.minVal) / Float.ofInt (max h.numBins.toInt 1)

/-- Whether two histograms are equal, bounds by value. -/
def same (a b : Histogram) : Bool :=
  a.counts == b.counts && a.minVal == b.minVal && a.maxVal == b.maxVal && a.numBins == b.numBins

end Histogram

/-- What a value is. -/
inductive Payload where
  /-- Stands for an optional argument that was left out. -/
  | empty
  | scalar (n : Number)
  | vector (v : Vec3)
  | boolean (b : Bool)
  /-- The name of a field, not yet looked up in any dataset. -/
  | fieldRef (name : String)
  | histogram (h : Histogram)
deriving DecidableEq, Inhabited

/-- What is attached to a value under a name. -/
inductive Attribute where
  | number (n : Number)
  | vector (v : Vec3)
deriving DecidableEq, Inhabited

/-- The kinds of values. -/
inductive ValueKind where
  | empty
  | scalar
  | vector
  | boolean
  | fieldRef
  | histogram
deriving DecidableEq, Repr

namespace ValueKind

/-- All kinds. -/
def all : List ValueKind := [.empty, .scalar, .vector, .boolean, .fieldRef, .histogram]

/-- The name of a kind in messages. -/
def name : ValueKind → String
  | empty => "empty"
  | scalar => "scalar"
  | vector => "vector"
  | boolean => "boolean"
  | fieldRef => "field"
  | histogram => "histogram"

/-- The tag of a kind in documents. -/
def tag : ValueKind → String
  | fieldRef => "field_ref"
  | kind => kind.name

/-- The kind of a tag. -/
def ofTag? (tag : String) : Option ValueKind := all.find? (·.tag == tag)

/-- Each kind is found under its own tag. -/
theorem ofTag?_tag (kind : ValueKind) : ofTag? kind.tag = some kind := by cases kind <;> decide

end ValueKind

/-- A payload with its attributes. -/
structure Value where
  payload : Payload
  attrs : Named Attribute := ∅
deriving DecidableEq, Inhabited

/-! ### Attributes that filters attach -/

/-- Where an extremum was found. -/
def positionAttr : String := "position"

/-- The lower bound of a histogram. -/
def minValAttr : String := "min_val"

/-- The upper bound of a histogram. -/
def maxValAttr : String := "max_val"

/-- The number of bins of a histogram. -/
def numBinsAttr : String := "num_bins"

namespace Value

/-! ### Values without attributes -/

/-- The value of an argument that was left out. -/
def empty : Value := ⟨.empty, ∅⟩

/-- A number. -/
def scalar (n : Number) : Value := ⟨.scalar n, ∅⟩

/-- An integer. -/
def int (n : Int32) : Value := scalar (.int n)

/-- A float. -/
def float (x : Float) : Value := scalar (.float x)

/-- A vector. -/
def vector (v : Vec3) : Value := ⟨.vector v, ∅⟩

/-- A truth value. -/
def boolean (b : Bool) : Value := ⟨.boolean b, ∅⟩

/-- The name of a field. -/
def fieldRef (name : String) : Value := ⟨.fieldRef name, ∅⟩

/-- A histogram. -/
def histogram (h : Histogram) : Value := ⟨.histogram h, ∅⟩

/-- The value with an attribute attached, in place of the one that had the name before. -/
def withAttr (v : Value) (name : String) (attr : Attribute) : Value :=
  { v with attrs := v.attrs.insert name attr }

/-! ### Views -/

/-- The kind of a value. -/
def kind (v : Value) : ValueKind :=
  match v.payload with
  | .empty => .empty
  | .scalar _ => .scalar
  | .vector _ => .vector
  | .boolean _ => .boolean
  | .fieldRef _ => .fieldRef
  | .histogram _ => .histogram

/-- Whether the value stands for an argument that was left out. -/
def isEmpty (v : Value) : Bool :=
  match v.payload with
  | .empty => true
  | _ => false

/-- The number of a scalar. -/
def number? (v : Value) : Option Number :=
  match v.payload with
  | .scalar n => some n
  | _ => none

/-- The truth value of a boolean. -/
def bool? (v : Value) : Option Bool :=
  match v.payload with
  | .boolean b => some b
  | _ => none

/-- A boolean as the integer 0 or 1. -/
def boolInt? (v : Value) : Option Int32 := v.bool?.map fun b => if b then 1 else 0

/-- The number of a scalar, or a boolean as the integer 0 or 1. -/
def numeric? (v : Value) : Option Number :=
  match v.payload with
  | .scalar n => some n
  | .boolean b => some (.int (if b then 1 else 0))
  | _ => none

/-- The components of a vector. -/
def vector? (v : Value) : Option Vec3 :=
  match v.payload with
  | .vector w => some w
  | _ => none

/-- The name of a field. -/
def fieldRef? (v : Value) : Option String :=
  match v.payload with
  | .fieldRef name => some name
  | _ => none

/-- A histogram. -/
def histogram? (v : Value) : Option Histogram :=
  match v.payload with
  | .histogram h => some h
  | _ => none

/-- The attribute attached under a name. -/
def attr? (v : Value) (name : String) : Option Attribute := v.attrs.get? name

/-- The position attached to a value, if it is a vector. -/
def position? (v : Value) : Option Vec3 :=
  match v.attr? positionAttr with
  | some (.vector p) => some p
  | _ => none

end Value

/-! ### Equality by value -/

/-- Whether two payloads are of one kind and equal, floats by value. -/
def Payload.same : Payload → Payload → Bool
  | .empty, .empty => true
  | .scalar a, .scalar b => a.same b
  | .vector a, .vector b => a.same b
  | .boolean a, .boolean b => a == b
  | .fieldRef a, .fieldRef b => a == b
  | .histogram a, .histogram b => a.same b
  | _, _ => false

/-- Whether two attributes are of one kind and equal, floats by value. -/
def Attribute.same : Attribute → Attribute → Bool
  | .number a, .number b => a.same b
  | .vector a, .vector b => a.same b
  | _, _ => false

/-- Whether two values have equal payloads and equal attributes under equal names, where floats
    are compared by value: `0.0` equals `-0.0`, and no NaN equals anything. -/
def Value.same (a b : Value) : Bool :=
  a.payload.same b.payload && a.attrs.all₂ Attribute.same b.attrs

end MeshExpr
