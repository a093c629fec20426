namespace MeshExpr

/-!
# Decimal numbers

A decimal number is a coefficient and a power of ten. Texts are read into decimals and floats are
written through them, so both directions meet in one type.

* `Decimal.normalize` drops the zeros at the end of the coefficient, so that a number is written
  in one way only.
* `Decimal.toFloat` is the float nearest to the decimal, with ties to the even mantissa.
-/

/-- The number `coefficient · 10 ^ exponent`. -/
structure Decimal where
  coefficient : Nat
  exponent : Int
deriving DecidableEq, Repr, Inhabited

namespace Decimal

/-- Drops at most `fuel` zeros at the end of the coefficient. -/
def dropZeros : Nat → Nat → Int → Decimal
  | 0, c, e => ⟨c, e⟩
  | fuel + 1, c, e => if c % 10 = 0 then dropZeros fuel (c / 10) (e + 1) else ⟨c, e⟩

/-- The same number with no zero at the end of the coefficient; zero is `0 · 10 ^ 0`. -/
def normalize (d : Decimal) : Decimal :=
  if d.coefficient = 0 then ⟨0, 0⟩ else dropZeros d.coefficient.log2 d.coefficient d.exponent

/-- The digits of the coefficient. -/
def digits (d : Decimal) : List Char := Nat.toDigits 10 d.coefficient

/-- The float nearest to the decimal; a decimal half way between two floats goes to the one with
    the even mantissa, and one beyond the largest float goes to infinity. -/
def toFloat (d : Decimal) : Float :=
  OfScientific.ofScientific d.coefficient (d.exponent < 0) d.exponent.natAbs

end Decimal

end MeshExpr
