import MeshExpr.Decimal.Shortest

namespace MeshExpr.Decimal

/-!
# Writing floats

A layout fixes what the digits of a float leave open: where positional writing ends, whether an
integral number keeps a point, and which of two equally near decimals is taken.

* `Layout.write` writes a finite float.
* `Layout.document` is the layout of documents, `Layout.message` that of messages.
-/

/-- The decisions of a way to write floats. -/
structure Layout where
  /-- Which of two equally near decimals is written. -/
  tie : Tie
  /-- Whether a number of this decimal exponent is written without an exponent. -/
  positional : Int → Bool
  /-- What follows an integral number that is written without an exponent. -/
  integralEnd : String

namespace Layout

/-- A document writes decimal exponents from `-5` to `15` positionally, keeps `.0` on integral
    numbers and takes the even one of two equally near decimals. -/
def document : Layout := ⟨.toEven, fun e => -5 ≤ e && e < 16, ".0"⟩

/-- A message never writes an exponent, has no point on integral numbers and takes the larger of
    two equally near decimals. -/
def message : Layout := ⟨.up, fun _ => true, ""⟩

/-- The digits `ds` with the point after the first `p` of them, filled up with zeros on either
    side where the digits do not reach the point. -/
def point (integralEnd : String) (ds : List Char) (p : Int) : String :=
  if p ≤ 0 then "0." ++ "".pushn '0' p.natAbs ++ String.ofList ds
  else if ds.length ≤ p.toNat then
    String.ofList ds ++ "".pushn '0' (p.toNat - ds.length) ++ integralEnd
  else String.ofList (ds.take p.toNat) ++ "." ++ String.ofList (ds.drop p.toNat)

/-- The digits `ds` with the point after the first one and the decimal exponent, which always
    has a sign. -/
def scientific (ds : List Char) (e : Int) : String :=
  String.ofList (ds.take 1)
    ++ (if ds.length ≤ 1 then "" else "." ++ String.ofList (ds.drop 1))
    ++ (if e < 0 then "e-" else "e+") ++ toString e.natAbs

/-- Writes a normalized decimal. -/
def writeDecimal (layout : Layout) (d : Decimal) : String :=
  if d.coefficient = 0 then "0" ++ layout.integralEnd
  else
    let ds := d.digits
    let p := ds.length + d.exponent
    if layout.positional (p - 1) then point layout.integralEnd ds p else scientific ds (p - 1)

/-- Writes a finite float: the sign of its bits, then the shortest decimal of its size. -/
def write (layout : Layout) (x : Float) : String :=
  (if isNegative x then "-" else "")
    ++ layout.writeDecimal (shortest layout.tie x.abs)

end Layout

end MeshExpr.Decimal
