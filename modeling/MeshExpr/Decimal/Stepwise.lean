import MeshExpr.Decimal.Basic

namespace MeshExpr.Decimal

/-!
# Reading decimals in steps

The digits of a number are taken as an integer of sixty-four bits and a power of ten. The integer
is rounded to a float, and the float is multiplied by the power or divided by it, which rounds
again. So the float that is read can lie next to the nearest one: `1e-23` is read as the float
above the nearest. The digits are taken as they stand, and two spellings of one number can be read
as two floats, as `1e45` and `1.0e45` are.

* `ofDigits` takes the digits before and after the point.
* `stepwise?` is the float that a decimal is read as.
* `coefficient_ofDigits_lt` : the coefficient has sixty-four bits at most.
-/

/-- The number of integers of sixty-four bits, `2 ^ 64`. -/
def wordCount : Nat := 18446744073709551616

/-- The number of a decimal digit. -/
def digitValue (c : Char) : Nat := c.toNat - '0'.toNat

/-- Appends digits to a coefficient as long as it keeps to sixty-four bits, and leaves the digits
    from the first one on that does not fit. -/
def appendDigits : Nat → List Char → Nat × List Char
  | c, [] => (c, [])
  | c, d :: ds =>
    if c * 10 + digitValue d < wordCount then appendDigits (c * 10 + digitValue d) ds
    else (c, d :: ds)

/-- The decimal of the digits before and after the point. A digit before the point that does not
    fit leaves its place to the power of ten, with all that follow it there; a digit after the
    point that does not fit is dropped, with all that follow it. -/
def ofDigits (whole fraction : List Char) : Decimal :=
  let (c, dropped) := appendDigits 0 whole
  -- The digits behind the point are appended to what is there, also if some before it were left.
  let (c, unread) := appendDigits c fraction
  ⟨c, dropped.length - (fraction.length - unread.length)⟩

/-- The greatest `k` with a float near `10 ^ k`. -/
def maxPower : Nat := 308

/-- The float nearest to a power of ten. -/
def tenTo (k : Nat) : Float := toFloat ⟨1, k⟩

/-- Divides a float that is below `wordCount` by `10 ^ k`, in steps of `10 ^ maxPower` at most. Two
    of them leave nothing of it. -/
def divideByTenTo (x : Float) (k : Nat) : Float :=
  if k ≤ maxPower then x / tenTo k
  else if k ≤ maxPower + maxPower then x / tenTo maxPower / tenTo (k - maxPower)
  else 0

/-- The float that a decimal is read as: its coefficient as a float, times or divided by its power
    of ten. A decimal that comes out beyond all floats cannot be read. -/
def stepwise? (d : Decimal) : Option Float :=
  let x := Float.ofNat d.coefficient
  match d.exponent with
  -- A quotient can become zero, but never leaves the floats.
  | .negSucc k => some (divideByTenTo x (k + 1))
  | .ofNat k =>
    if d.coefficient = 0 then some 0
    else if k ≤ maxPower ∧ (x * tenTo k).isFinite then some (x * tenTo k)
    else none

/-- The digits that are appended never make the number too large for a word. -/
theorem appendDigits_lt {c : Nat} (hc : c < wordCount) (ds : List Char) :
    (appendDigits c ds).1 < wordCount := by
  induction ds generalizing c with
  | nil => exact hc
  | cons d ds ih =>
    rw [appendDigits]
    split
    · next hfits => exact ih hfits
    · exact hc

/-- The coefficient has sixty-four bits at most, whatever the digits are. -/
theorem coefficient_ofDigits_lt (whole fraction : List Char) :
    (ofDigits whole fraction).coefficient < wordCount :=
  appendDigits_lt (appendDigits_lt (by decide) whole) fraction

end MeshExpr.Decimal
