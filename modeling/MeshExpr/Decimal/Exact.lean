import MeshExpr.Decimal.Basic

namespace MeshExpr.Decimal

/-!
# The exact value of a float

Every finite float is an integer divided by a power of two. All questions about the value of a
float that are not answered by floating-point arithmetic are answered here, in exact arithmetic.

* `fractionOf` is the size of a float, `isNegative` its sign.
* `truncate` is the integer part, `inBounds` compares with two integers.
* `exact` is the size as a decimal with all its digits.
-/

/-- The number `numerator / 2 ^ shift`. -/
structure Fraction where
  numerator : Nat
  shift : Nat
deriving DecidableEq, Repr

/-- The denominator of a fraction. -/
def Fraction.denominator (f : Fraction) : Nat := Nat.pow 2 f.shift

/-- The bit that stands in front of the mantissa of every float but the smallest ones, `2 ^ 52`. -/
def hiddenBit : Nat := 4503599627370496

/-- The size of a finite float, from the fields of its bits: eleven bits of exponent, then
    fifty-two bits of mantissa. The bits of an infinity read as `2 ^ 1024`. -/
def fractionOf (x : Float) : Fraction :=
  let mantissa := x.toBits.toNat % hiddenBit
  let biased := x.toBits.toNat / hiddenBit % 2048
  if biased = 0 then ⟨mantissa, 1074⟩
  else if biased < 1075 then ⟨hiddenBit + mantissa, 1075 - biased⟩
  else ⟨(hiddenBit + mantissa) * Nat.pow 2 (biased - 1075), 0⟩

/-- Whether the sign of a float is set, which it can be on a zero too. -/
def isNegative (x : Float) : Bool := x.toBits >>> 63 = 1

/-- The float without its fraction. -/
def truncate (x : Float) : Int :=
  let size := (fractionOf x).numerator / (fractionOf x).denominator
  if isNegative x then -size else size

/-- The value of a float times the denominator of its size. -/
def signedNumerator (x : Float) : Int :=
  if isNegative x then -(fractionOf x).numerator else (fractionOf x).numerator

/-- Whether a finite float lies between two integers, ends included. -/
def inBounds (low high : Int) (x : Float) : Bool :=
  low * (fractionOf x).denominator ≤ signedNumerator x
    && signedNumerator x ≤ high * (fractionOf x).denominator

/-- All digits of a fraction. -/
def exact (f : Fraction) : Decimal := normalize ⟨f.numerator * Nat.pow 5 f.shift, -f.shift⟩

end MeshExpr.Decimal
