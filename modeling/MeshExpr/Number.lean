import MeshExpr.Decimal.Layout

namespace MeshExpr

/-!
# Numbers of expressions

A number is an integer of thirty-two bits or a float, and stays what it is until an operation
mixes the two.

* `Number.Domain.of` says in which of the two domains an operation on two numbers is carried out.
* `Number.toFloat` and `Number.toInt32` are the readings of a number in either domain.
* `Number.ofInt?` is the integer of thirty-two bits, if the integer has that many.
-/

/-- A scalar number. -/
inductive Number where
  | int (n : Int32)
  | float (x : Float)
deriving DecidableEq, Inhabited

/-- The text of a float in a message. -/
def floatText (x : Float) : String :=
  if x.isNaN then "NaN"
  else if x.isFinite then Decimal.Layout.message.write x
  else if x < 0 then "-inf" else "inf"

namespace Number

/-- The least integer of thirty-two bits. -/
def minInt32 : Int := -2147483648

/-- The greatest integer of thirty-two bits. -/
def maxInt32 : Int := 2147483647

/-- The integer `n`, if thirty-two bits hold it. -/
def ofInt? (n : Int) : Option Int32 :=
  if minInt32 ≤ n ∧ n ≤ maxInt32 then some (Int32.ofInt n) else none

/-- The integer of thirty-two bits that is nearest to `n`. -/
def clamp (n : Int) : Int32 := Int32.ofInt (max minInt32 (min maxInt32 n))

/-- Whether the number is a float. -/
def isFloat : Number → Bool
  | int _ => false
  | float _ => true

/-- The number as a float; every integer of thirty-two bits is one. -/
def toFloat : Number → Float
  | int n => Float.ofInt n.toInt
  | float x => x

/-- The number as an integer: a float loses its fraction, one beyond the thirty-two bits becomes
    the bound on its side, and NaN becomes zero. -/
def toInt32 : Number → Int32
  | int n => n
  | float x => if x.isNaN then 0 else clamp (Decimal.truncate x)

/-- The text of a number in a message. -/
def text : Number → String
  | int n => toString n.toInt
  | float x => floatText x

/-- Whether two numbers are equal: an integer equals no float, floats are compared by value. -/
def same : Number → Number → Bool
  | int a, int b => a == b
  | float a, float b => a == b
  | _, _ => false

/-- The domains in which scalar operations are carried out. -/
inductive Domain where
  | int
  | float
deriving DecidableEq, Repr

/-- The domain of an operation on two numbers: floats as soon as one of them is a float. -/
def Domain.of (a b : Number) : Domain := if a.isFloat || b.isFloat then .float else .int

/-- The domain of two numbers does not depend on their order. -/
theorem Domain.of_comm (a b : Number) : Domain.of a b = Domain.of b a := by
  simp [Domain.of, Bool.or_comm]

@[simp] theorem Domain.of_int (a b : Int32) : Domain.of (.int a) (.int b) = .int := rfl
@[simp] theorem Domain.of_float_left (x : Float) (b : Number) :
    Domain.of (.float x) b = .float := by simp [Domain.of, isFloat]
@[simp] theorem Domain.of_float_right (a : Number) (x : Float) :
    Domain.of a (.float x) = .float := by simp [Domain.of, isFloat]

end Number

end MeshExpr
