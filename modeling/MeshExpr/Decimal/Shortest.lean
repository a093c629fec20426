import MeshExpr.Decimal.Exact

namespace MeshExpr.Decimal

/-!
# The shortest decimal of a float

A finite float is written with the fewest digits to which it is the nearest float, and of the
decimals with that many digits the nearest one is taken. On the grid of decimals with `n` digits
the nearest points to a number are its two neighbours, so the search looks at these two for
`n = 1, 2, …`, and asks for the nearest float of each.

* `onGrid` looks at the two neighbours on one grid.
* `shortest` is the answer of the first grid that has one.
* `toFloat_shortest` : the float is the nearest one to what is written, unless all digits were
  needed.
-/

/-- Which of two decimals equally near to a float is written. -/
inductive Tie where
  /-- The one with the even last digit. -/
  | toEven
  /-- The larger one. -/
  | up
deriving DecidableEq, Repr

/-- Numerator and denominator of a fraction divided by `10 ^ e`. -/
def scaled (f : Fraction) (e : Int) : Nat × Nat :=
  if 0 ≤ e then (f.numerator, f.denominator * Nat.pow 10 e.toNat)
  else (f.numerator * Nat.pow 10 e.natAbs, f.denominator)

/-- The number of digits before the point: the least `p` with the fraction below `10 ^ p`. -/
def magnitude (f : Fraction) : Int :=
  let guess : Int :=
    (Nat.toDigits 10 f.numerator).length - (Nat.toDigits 10 f.denominator).length
  -- The lengths of numerator and denominator give the number of digits, up to one.
  let (n, d) := scaled f guess
  if n < d then guess else guess + 1

/-- Whether of the two neighbours `low` and `low + 1` of `n / d` the lower one is taken. -/
def prefersLow (tie : Tie) (n d low : Nat) : Bool :=
  match compare (2 * n) ((2 * low + 1) * d), tie with
  | .lt, _ => true
  | .gt, _ => false
  | .eq, .toEven => low % 2 = 0
  | .eq, .up => false

/-- The nearest decimal with `count` digits to which `x` is the nearest float. -/
def onGrid (tie : Tie) (x : Float) (f : Fraction) (count : Nat) : Option Decimal :=
  let e := magnitude f - count
  let (n, d) := scaled f e
  let low := n / d
  -- These are the neighbours of the float on the grid of its first `count` digits.
  let below := normalize ⟨low, e⟩
  let above := normalize ⟨low + 1, e⟩
  if below.toFloat = x ∧ above.toFloat = x then
    some (if prefersLow tie n d low then below else above)
  else if below.toFloat = x then some below
  else if above.toFloat = x then some above
  else none

/-- The decimal with the fewest digits to which the finite float `x ≥ 0` is the nearest float, and
    the nearest one of these. Seventeen digits always suffice; all digits stand behind them. -/
def shortest (tie : Tie) (x : Float) : Decimal :=
  let f := fractionOf x
  if f.numerator = 0 then ⟨0, 0⟩
  else ((List.range 17).findSome? fun n => onGrid tie x f (n + 1)).getD (exact f)

/-- A candidate that was found is read back as the float that it stands for. -/
theorem toFloat_onGrid {tie : Tie} {x : Float} {f : Fraction} {count : Nat} {d : Decimal}
    (h : onGrid tie x f count = some d) : d.toFloat = x := by
  simp only [onGrid] at h
  split at h
  · next hboth =>
    cases h
    split
    · exact hboth.1
    · exact hboth.2
  · split at h
    · next hbelow => cases h; exact hbelow
    · split at h
      · next habove => cases h; exact habove
      · cases h

/-- The float is the nearest one to what is written, unless no grid has an answer. -/
theorem toFloat_shortest (tie : Tie) (x : Float) :
    (shortest tie x).toFloat = x ∨ shortest tie x = exact (fractionOf x) := by
  simp only [shortest]
  split
  · next hzero => exact .inr (by simp [exact, normalize, hzero])
  · cases hgrid : (List.range 17).findSome? fun n => onGrid tie x (fractionOf x) (n + 1) with
    | none => exact .inr rfl
    | some d =>
      obtain ⟨n, _, hn⟩ := List.exists_of_findSome?_eq_some hgrid
      exact .inl (toFloat_onGrid hn)

end MeshExpr.Decimal
