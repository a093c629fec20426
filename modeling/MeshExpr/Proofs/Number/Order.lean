import Mathlib

namespace MeshExpr.FloatOrder

open Float.Model

/-!
# The order of floats

A comparison of floats is false as soon as one of them is no number; otherwise it goes by sign,
exponent and mantissa, with the infinities at both ends and one place for both zeros. So the floats
that are numbers are ranked by a linear order, and `<` compares ranks.

* `rank` — the place of a float.
* `lt_iff`, `beq_iff` and `le_iff` — what `<`, `==` and `≤` say of two floats.
* `not_lt_self`, `lt_trans` and `not_lt_trans` — `<` is a strict weak order on numbers.
-/

/-- The place of a float that has been taken apart: its side of zero first, then the exponent, then
    the mantissa, both turned around below zero. -/
def placeOf : UnpackedFloat → ℤ ×ₗ ℤ ×ₗ ℤ
  | .infinity .negative => toLex (-2, toLex (0, 0))
  | .finite .negative mantissa exponent _ => toLex (-1, toLex (-exponent, -mantissa))
  | .zero _ => toLex (0, toLex (0, 0))
  | .notANumber => toLex (0, toLex (0, 0))
  | .finite .positive mantissa exponent _ => toLex (1, toLex (exponent, mantissa))
  | .infinity .positive => toLex (2, toLex (0, 0))

/-- Of two floats on one side of zero, the exponents decide first and then the mantissas. -/
theorem compare_then_eq_lt_iff {m n : ℕ} {e f : ℤ} :
    (compare e f).then (compare m n) = .lt ↔ e < f ∨ e = f ∧ m < n := by
  rw [Ordering.then_eq_lt, compare_lt_iff_lt, compare_eq_iff_eq, compare_lt_iff_lt]

/-- A comparison in two steps, from the other side. -/
theorem compare_then_eq_gt_iff {m n : ℕ} {e f : ℤ} :
    (compare e f).then (compare m n) = .gt ↔ f < e ∨ e = f ∧ n < m := by
  rw [Ordering.then_eq_gt, compare_gt_iff_gt, compare_eq_iff_eq, compare_gt_iff_gt]

/-- One number is below another if its place is, and neither is a NaN. -/
theorem unpacked_lt_iff (a b : UnpackedFloat) :
    a.lt b = true ↔ a.isNaN = false ∧ b.isNaN = false ∧ placeOf a < placeOf b := by
  have hsign : compare UnpackedFloat.Sign.negative UnpackedFloat.Sign.positive = .lt := by decide
  unfold UnpackedFloat.lt
  rcases a with (_ | _) | _ | _ | ⟨_ | _, m, e, -⟩ <;>
    rcases b with (_ | _) | _ | _ | ⟨_ | _, n, f, -⟩ <;>
    simp [UnpackedFloat.compare, UnpackedFloat.isNaN, placeOf, Prod.Lex.toLex_lt_toLex, hsign,
      compare_then_eq_lt_iff, compare_then_eq_gt_iff]

/-- The place of a float in the order of numbers. -/
def rank (x : Float) : ℤ ×ₗ ℤ ×ₗ ℤ := placeOf x.toModel.unpack

/-- A float is smaller than another one if both are numbers and its place is smaller. -/
theorem lt_iff {x y : Float} :
    x < y ↔ x.isNaN = false ∧ y.isNaN = false ∧ rank x < rank y := by
  have hlt : x < y ↔ x.toModel.unpack.lt y.toModel.unpack = true := by
    show x.lt y = true ↔ _
    exact decide_eq_true_iff
  rw [hlt]
  exact unpacked_lt_iff _ _

variable {x y z : Float}

/-- Two numbers are equal if their places are, and neither is a NaN. -/
theorem unpacked_beq_iff (a b : UnpackedFloat) :
    a.beq b = true ↔ a.isNaN = false ∧ b.isNaN = false ∧ placeOf a = placeOf b := by
  have hself : ∀ sign : UnpackedFloat.Sign, compare sign sign = .eq := by
    intro sign
    cases sign <;> rfl
  have hsign : compare UnpackedFloat.Sign.negative .positive = .lt := by decide
  have hsign' : compare UnpackedFloat.Sign.positive .negative = .gt := by decide
  unfold UnpackedFloat.beq
  rcases a with (_ | _) | _ | _ | ⟨_ | _, m, e, -⟩ <;>
    rcases b with (_ | _) | _ | _ | ⟨_ | _, n, f, -⟩ <;>
    simp [UnpackedFloat.compare, UnpackedFloat.isNaN, placeOf, hself, hsign, hsign',
      Ordering.then_eq_eq]

/-- At most is below or equal, NaN included. -/
theorem unpacked_le_iff (a b : UnpackedFloat) : a.le b = true ↔ a.lt b = true ∨ a.beq b = true := by
  unfold UnpackedFloat.le UnpackedFloat.lt UnpackedFloat.beq
  cases a.compare b with
  | none => simp
  | some o => cases o <;> simp

/-- Two floats are equal if both are numbers and have one place. -/
theorem beq_iff : (x == y) = true ↔ x.isNaN = false ∧ y.isNaN = false ∧ rank x = rank y :=
  unpacked_beq_iff _ _

/-- One float is at most another if its place is, and neither is a NaN. -/
theorem le_iff : x ≤ y ↔ x.isNaN = false ∧ y.isNaN = false ∧ rank x ≤ rank y := by
  have hle : x ≤ y ↔ x.toModel.unpack.le y.toModel.unpack = true := by
    show x.le y = true ↔ _
    exact decide_eq_true_iff
  rw [hle, unpacked_le_iff, unpacked_lt_iff, unpacked_beq_iff, ← and_or_left, ← and_or_left,
    ← le_iff_lt_or_eq]
  rfl

/-- No float is below itself. -/
theorem not_lt_self (x : Float) : ¬x < x := by
  intro h
  exact (lt_iff.mp h).2.2.false

/-- The order of floats is transitive, NaN included. -/
theorem lt_trans (hxy : x < y) (hyz : y < z) : x < z := by
  obtain ⟨hx, -, hrank⟩ := lt_iff.mp hxy
  obtain ⟨-, hz, hrank'⟩ := lt_iff.mp hyz
  exact lt_iff.mpr ⟨hx, hz, hrank.trans hrank'⟩

/-- Between numbers, not being smaller is transitive too. -/
theorem not_lt_trans (hy : y.isNaN = false) (hxy : ¬x < y) (hyz : ¬y < z) : ¬x < z := by
  intro h
  obtain ⟨hx, hz, hrank⟩ := lt_iff.mp h
  have hle : rank y ≤ rank x := not_lt.mp fun hlt => hxy (lt_iff.mpr ⟨hx, hy, hlt⟩)
  have hle' : rank z ≤ rank y := not_lt.mp fun hlt => hyz (lt_iff.mpr ⟨hy, hz, hlt⟩)
  exact absurd (hle'.trans hle) (not_le.mpr hrank)

end MeshExpr.FloatOrder
