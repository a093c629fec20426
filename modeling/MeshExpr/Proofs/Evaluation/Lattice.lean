import MeshExpr.Proofs.Evaluation.Operators
import MeshExpr.Proofs.Number.Form

namespace MeshExpr

open FloatValue FloatOrder FloatForm

/-!
# The smaller and the greater of two numbers

Numbers of both domains have their place in one linear order, that of the floats which they become.
The filters for the smaller and for the greater of two numbers pick by this order, and the
comparisons ask about it, although each of them decides on its own whether it does so between
integers or between floats. So the laws of minima and maxima in a linear order carry over, as long
as a place determines the number: no operand is NaN, and no two are zeros of opposite sign.

* `Number.place` — the place of a number.
* `Number.lt_iff_place_lt` — integers become floats in their order.
* `Extreme.place_pick` — the filters pick by place.
* `Number.eq_of_place` — a place determines the number, apart from its domain.
* `Extreme.scalars_form_lattice` — **the laws of a lattice, in terms of the filters**.
-/

/-! ### Places -/

namespace Number

variable {a b : Number} {m n : Int32}

/-- The place of a number in the order of the floats. -/
def place (n : Number) : ℤ ×ₗ ℤ ×ₗ ℤ := rank n.toFloat

/-- Every integer is finite as a float. -/
theorem isFinite_int (n : Int32) : (int n).toFloat.isFinite = true :=
  isFinite_ofInt (natAbs_toInt_lt n)

/-- An integer keeps its value as a float. -/
theorem value_int (n : Int32) : value (int n).toFloat = n.toInt := value_ofInt (natAbs_toInt_lt n)

/-- Integers become floats in their order. -/
theorem lt_iff_place_lt (m n : Int32) : m < n ↔ (int m).place < (int n).place := by
  unfold place
  rw [rank_lt_iff (isFinite_int m) (isFinite_int n), value_int, value_int, Int.cast_lt,
    Int32.lt_iff_toInt_lt]

/-- Integers are ordered as their places. -/
theorem le_iff_place_le (m n : Int32) : m ≤ n ↔ (int m).place ≤ (int n).place := by
  rw [← not_lt, ← lt_iff_place_lt, Int32.not_lt]

/-- No two integers have the same place. -/
theorem eq_iff_place_eq (m n : Int32) : m = n ↔ (int m).place = (int n).place := by
  unfold place
  rw [rank_eq_iff (isFinite_int m) (isFinite_int n), value_int, value_int, Int.cast_inj,
    Int32.toInt_inj]

/-- Two numbers are compared as floats, or they are integers. -/
theorem float_or_ints (a b : Number) :
    (a.isFloat ∨ b.isFloat) ∨ ∃ m n, a = .int m ∧ b = .int n := by
  cases a with
  | float x => exact .inl (.inl rfl)
  | int m => cases b with
    | float y => exact .inl (.inr rfl)
    | int n => exact .inr ⟨m, n, rfl, rfl⟩

/-- A number that is a float is that float. -/
theorem eq_float (h : a.isFloat = true) : a = .float a.toFloat := by
  cases a with
  | int n => cases h
  | float x => rfl

/-- A place determines the number, as long as its domain is known. -/
theorem eq_of_place (ha : a.toFloat.isNaN = false) (hb : b.toFloat.isNaN = false)
    (hzeros : ¬OppositeZeros a.toFloat b.toFloat) (hdomain : a.isFloat = b.isFloat)
    (hplace : a.place = b.place) : a = b := by
  cases a with
  | int m => cases b with
    | int n => rw [(eq_iff_place_eq m n).mpr hplace]
    | float y => cases hdomain
  | float x => cases b with
    | int n => cases hdomain
    | float y => exact congrArg float ((eq_or_oppositeZeros ha hb hplace).resolve_right hzeros)

/-- Numbers that a place tells apart: none is NaN, and no two are zeros of opposite sign. -/
structure Comparable (numbers : List Number) : Prop where
  number : ∀ a ∈ numbers, a.toFloat.isNaN = false
  zeros : ∀ a ∈ numbers, ∀ b ∈ numbers, ¬OppositeZeros a.toFloat b.toFloat

/-- The number is one of a list, or one of them turned into a float. -/
def From (numbers : List Number) (a : Number) : Prop := ∃ b ∈ numbers, a.toFloat = b.toFloat

variable {numbers : List Number}

/-- Each number of the list comes from it. -/
theorem From.of_mem (h : a ∈ numbers) : From numbers a := ⟨a, h, rfl⟩

/-- No number that comes from the list is no number, if the list has none that is. -/
theorem From.isNaN (h : Comparable numbers) (ha : From numbers a) : a.toFloat.isNaN = false := by
  obtain ⟨b, hb, heq⟩ := ha
  rw [heq]
  exact h.number b hb

/-- Two numbers of one domain that come from the list are the same if their places are. This is
    where the two zeros must not be mixed. -/
theorem Comparable.eq_of_place (h : Comparable numbers) (ha : From numbers a) (hb : From numbers b)
    (hdomain : a.isFloat = b.isFloat) (hplace : a.place = b.place) : a = b := by
  refine Number.eq_of_place (ha.isNaN h) (hb.isNaN h) ?_ hdomain hplace
  obtain ⟨a', ha', heq⟩ := ha
  obtain ⟨b', hb', heq'⟩ := hb
  rw [heq, heq']
  exact h.zeros a' ha' b' hb'

end Number

/-! ### Picking a number -/

namespace Extreme

open Number

variable {which : Extreme} {a b c : Number} {numbers : List Number}

/-- The filter that picks the smaller or the greater of two numbers. -/
def filter : Extreme → Filter
  | min => .scalarMin
  | max => .scalarMax

/-- The number that the filter picks. -/
def pick : Extreme → Number → Number → Number
  | min => Extremum.least
  | max => Extremum.greatest

/-- The minimum or the maximum in a linear order. -/
def ofPlaces {α : Type} [LinearOrder α] : Extreme → α → α → α
  | min => Min.min
  | max => Max.max

/-- What is picked is a float as soon as one of the two is. -/
theorem isFloat_pick (which : Extreme) (a b : Number) :
    (which.pick a b).isFloat = (a.isFloat || b.isFloat) := by
  cases which <;> cases a <;> cases b <;> rfl

/-- **The filters decide by the floats** which the numbers become, also between integers. -/
theorem toFloat_pick (which : Extreme) (a b : Number) : (which.pick a b).toFloat
    = if a.toFloat.isNaN || which.improves b.toFloat a.toFloat then b.toFloat else a.toFloat := by
  -- Between floats this is the definition. Between integers it has to be shown that their order is
  -- that of the floats which they become.
  rcases float_or_ints a b with hfloat | ⟨m, n, rfl, rfl⟩
  · have hdomain : Domain.of a b = .float := if_pos (by simpa using hfloat)
    cases which <;> simp only [pick, Extremum.least, Extremum.greatest, hdomain, improves] <;> rfl
  · have hm := isNaN_of_isFinite (isFinite_int m)
    have hn := isNaN_of_isFinite (isFinite_int n)
    have hlt : m < n ↔ (int m).toFloat < (int n).toFloat := by
      rw [lt_iff_place_lt, lt_iff, and_iff_right hm, and_iff_right hn]
      rfl
    have hlt' : n < m ↔ (int n).toFloat < (int m).toFloat := by
      rw [lt_iff_place_lt, lt_iff, and_iff_right hn, and_iff_right hm]
      rfl
    cases which with
    | min =>
      simp only [pick, Extremum.least, Domain.of_int, toInt32, hm, improves, Bool.false_or,
        decide_eq_true_eq, ← hlt']
      exact apply_ite (fun r => (int r).toFloat) _ _ _
    | max =>
      simp only [pick, Extremum.greatest, Domain.of_int, toInt32, hm, improves, Bool.false_or,
        decide_eq_true_eq, ← hlt]
      exact apply_ite (fun r => (int r).toFloat) _ _ _

/-- A float that is no number gives way to the other one. -/
theorem pick_of_isNaN (which : Extreme) (ha : a.toFloat.isNaN = true)
    (hb : b.toFloat.isNaN = false) :
    which.pick a b = .float b.toFloat ∧ which.pick b a = .float b.toFloat := by
  have hfloat : a.isFloat = true := by
    cases a with
    | int m => exact absurd (ha.symm.trans (isNaN_of_isFinite (isFinite_int m))) (by simp)
    | float x => rfl
  -- A comparison with what is no number is false, so that it is not better either.
  have hworse : which.improves a.toFloat b.toFloat = false := by
    cases which
    · exact decide_eq_false fun h => absurd (ha.symm.trans (lt_iff.mp h).1) (by simp)
    · exact decide_eq_false fun h => absurd (ha.symm.trans (lt_iff.mp h).2.1) (by simp)
  constructor
  · rw [eq_float (a := which.pick a b) (by rw [isFloat_pick, hfloat]; rfl), toFloat_pick, ha]
    rfl
  · rw [eq_float (a := which.pick b a) (by rw [isFloat_pick, hfloat, Bool.or_true]), toFloat_pick,
      hb, hworse]
    rfl

/-- What the filters pick is one of the two, and of the better place. -/
theorem pick_cases (which : Extreme) (ha : a.toFloat.isNaN = false) (hb : b.toFloat.isNaN = false) :
    (which.pick a b).toFloat = a.toFloat ∧ which.ofPlaces a.place b.place = a.place
      ∨ (which.pick a b).toFloat = b.toFloat ∧ which.ofPlaces a.place b.place = b.place := by
  have hlt : a.toFloat < b.toFloat ↔ a.place < b.place :=
    lt_iff.trans ((and_iff_right ha).trans (and_iff_right hb))
  have hlt' : b.toFloat < a.toFloat ↔ b.place < a.place :=
    lt_iff.trans ((and_iff_right hb).trans (and_iff_right ha))
  rw [toFloat_pick, ha, Bool.false_or]
  -- The comparison is one of places, and so is the choice.
  cases hbetter : which.improves b.toFloat a.toFloat with
  | true =>
    refine .inr ⟨rfl, ?_⟩
    cases which
    · exact min_eq_right (hlt'.mp (of_decide_eq_true hbetter)).le
    · exact max_eq_right (hlt.mp (of_decide_eq_true hbetter)).le
  | false =>
    refine .inl ⟨rfl, ?_⟩
    cases which
    · exact min_eq_left (not_lt.mp fun h => of_decide_eq_false hbetter (hlt'.mpr h))
    · exact max_eq_left (not_lt.mp fun h => of_decide_eq_false hbetter (hlt.mpr h))

/-- **The place of what is picked** is the smaller or the greater of the two places. -/
theorem place_pick (which : Extreme) (ha : a.toFloat.isNaN = false) (hb : b.toFloat.isNaN = false) :
    (which.pick a b).place = which.ofPlaces a.place b.place := by
  rcases pick_cases which ha hb with ⟨hpick, hplace⟩ | ⟨hpick, hplace⟩
  · rw [hplace, place, hpick]
    rfl
  · rw [hplace, place, hpick]
    rfl

/-- What is picked comes from the list again, so that picking can go on. -/
theorem from_pick (h : Comparable numbers) (ha : From numbers a) (hb : From numbers b) :
    From numbers (which.pick a b) := by
  obtain ⟨a', ha', heq⟩ := ha
  obtain ⟨b', hb', heq'⟩ := hb
  rcases pick_cases which (heq ▸ h.number a' ha') (heq' ▸ h.number b' hb') with
    ⟨hpick, -⟩ | ⟨hpick, -⟩
  · exact ⟨a', ha', hpick.trans heq⟩
  · exact ⟨b', hb', hpick.trans heq'⟩

/-! ### The laws of picking -/

/-- It does not matter in which order the two come. -/
theorem pick_comm (which : Extreme) (h : Comparable numbers) (ha : From numbers a)
    (hb : From numbers b) : which.pick a b = which.pick b a := by
  apply h.eq_of_place (from_pick h ha hb) (from_pick h hb ha)
  · rw [isFloat_pick, isFloat_pick, Bool.or_comm]
  · rw [place_pick which (ha.isNaN h) (hb.isNaN h), place_pick which (hb.isNaN h) (ha.isNaN h)]
    cases which
    · exact min_comm _ _
    · exact max_comm _ _

/-- Of three numbers it does not matter which two are compared first, although a float among them
    may turn the others into floats sooner or later. -/
theorem pick_assoc (which : Extreme) (h : Comparable numbers) (ha : From numbers a)
    (hb : From numbers b) (hc : From numbers c) :
    which.pick (which.pick a b) c = which.pick a (which.pick b c) := by
  have hab : From numbers (which.pick a b) := from_pick h ha hb
  have hbc : From numbers (which.pick b c) := from_pick h hb hc
  apply h.eq_of_place (from_pick h hab hc) (from_pick h ha hbc)
  · simp only [isFloat_pick, Bool.or_assoc]
  · rw [place_pick which (hab.isNaN h) (hc.isNaN h), place_pick which (ha.isNaN h) (hbc.isNaN h),
      place_pick which (ha.isNaN h) (hb.isNaN h), place_pick which (hb.isNaN h) (hc.isNaN h)]
    cases which
    · exact min_assoc _ _ _
    · exact max_assoc _ _ _

end Extreme

/-! ### Filters and comparisons -/

/-- The filter gives the value for the two arguments, whatever its context is. -/
def Filter.Gives (filter : Filter) (a b v : Value) : Prop :=
  ∀ ctx param, filter.compute ctx [a, b] param = Eval.ofExcept (.ok v)

/-- The comparison of two values comes out true. -/
def Operator.Holds (op : Operator) (a b : Value) : Prop :=
  ∀ ctx, Filter.binaryOp.compute ctx [a, b] (.op op) = Eval.ofExcept (.ok (.boolean true))

namespace Operator

variable {op : Operator} {a b : Value} {m n : Number}

/-- What the table of a comparison says is true holds. -/
theorem holds_of_table (h : op.Table a.payload b.payload (.ok (.boolean true))) : op.Holds a b := by
  intro ctx
  show Eval.ofExcept (op.outcome a b) = _
  rw [outcome_of_table h]
  rfl

/-- The comparisons ask about the places, also between integers. -/
theorem holds_le (ha : a.payload.ReadsAs m) (hb : b.payload.ReadsAs n)
    (hm : m.toFloat.isNaN = false) (hn : n.toFloat.isNaN = false) (h : m.place ≤ n.place) :
    le.Holds a b := by
  rcases Number.float_or_ints m n with hfloat | ⟨p, q, rfl, rfl⟩
  · have hle : m.toFloat ≤ n.toFloat := le_iff.mpr ⟨hm, hn, h⟩
    exact holds_of_table (.floatOrder ha hb hfloat (congrArg some (decide_eq_true hle)))
  · have hle : p.toInt ≤ q.toInt := Int32.le_iff_toInt_le.mp ((Number.le_iff_place_le p q).mpr h)
    exact holds_of_table (.integerOrder ha hb (congrArg some (decide_eq_true hle)))

/-- Two operands with one place are equal, also across the domains. -/
theorem holds_eq (ha : a.payload.ReadsAs m) (hb : b.payload.ReadsAs n)
    (hm : m.toFloat.isNaN = false) (hn : n.toFloat.isNaN = false) (h : m.place = n.place) :
    eq.Holds a b := by
  rcases Number.float_or_ints m n with hfloat | ⟨p, q, rfl, rfl⟩
  · have heq : (m.toFloat == n.toFloat) = true := beq_iff.mpr ⟨hm, hn, h⟩
    exact holds_of_table (.floatOrder ha hb hfloat (congrArg some heq))
  · obtain rfl : p = q := (Number.eq_iff_place_eq p q).mpr h
    exact holds_of_table (.integerOrder ha hb (congrArg some (beq_self_eq_true p.toInt)))

end Operator

namespace Extreme

open Number

variable {a b c : Value} {m n k : Number}

/-- What a filter picks is at most, or at least, as great as the other value. -/
def Bounds : Extreme → Value → Value → Prop
  | min, v, a => Operator.le.Holds v a
  | max, v, a => Operator.le.Holds a v

/-- The filter picks `v` out of `a` and `b`, which are read as `m` and `n`. -/
structure Picks (which : Extreme) (a b : Value) (m n : Number) (v : Value) : Prop where
  gives : which.filter.Gives a b v
  /-- It does not matter in which order the two come. -/
  swapped : which.filter.Gives b a v
  /-- It is a float if one of the two is, and otherwise an integer. -/
  domain : ∃ r, v = .scalar r ∧ (r.isFloat ↔ m.isFloat ∨ n.isFloat)
  /-- It equals one of the two. -/
  equals : Operator.eq.Holds v a ∨ Operator.eq.Holds v b
  left : which.Bounds v a
  right : which.Bounds v b

/-- The laws of a lattice for three values, which are read as `m`, `n` and `k`. -/
structure IsLattice (a b c : Value) (m n k : Number) : Prop where
  picks : ∀ which : Extreme, ∃ v, which.Picks a b m n v
  /-- It does not matter which two are compared first. -/
  assoc : ∀ which : Extreme, ∃ ab bc v, which.filter.Gives a b ab ∧ which.filter.Gives b c bc
    ∧ which.filter.Gives ab c v ∧ which.filter.Gives a bc v
  /-- The smaller of a number and something greater is the number. -/
  absorb : ∃ greater v, Filter.scalarMax.Gives a b greater ∧ Filter.scalarMin.Gives a greater v
    ∧ Operator.eq.Holds v a

/-- The filter gives what is picked from the numbers of its operands. -/
theorem gives_pick (which : Extreme) (ha : a.payload.ReadsAs m) (hb : b.payload.ReadsAs n) :
    which.filter.Gives a b (.scalar (which.pick m n)) := by
  intro ctx param
  obtain ⟨p, attrs⟩ := a
  obtain ⟨q, attrs'⟩ := b
  cases which <;> cases ha <;> cases hb <;> rfl

variable {which : Extreme} {numbers : List Number}

/-- What is picked bounds what it is picked from, on its side. -/
theorem bounds_of_place (hv : a.payload.ReadsAs m) (hb : b.payload.ReadsAs n)
    (hm : m.toFloat.isNaN = false) (hn : n.toFloat.isNaN = false)
    (h : which.ofPlaces m.place n.place = m.place) : which.Bounds a b := by
  cases which
  · exact Operator.holds_le hv hb hm hn (min_eq_left_iff.mp h)
  · exact Operator.holds_le hb hv hn hm (max_eq_left_iff.mp h)

/-- What is picked has everything that is asked of it. -/
theorem picks_pick (which : Extreme) (h : Comparable numbers) (hm : m ∈ numbers) (hn : n ∈ numbers)
    (ha : a.payload.ReadsAs m) (hb : b.payload.ReadsAs n) :
    which.Picks a b m n (.scalar (which.pick m n)) := by
  have hfrom : From numbers (which.pick m n) := from_pick h (.of_mem hm) (.of_mem hn)
  have hv : (Value.scalar (which.pick m n)).payload.ReadsAs (which.pick m n) := .scalar _
  have hnumber := hfrom.isNaN h
  have hnumber₁ := h.number m hm
  have hnumber₂ := h.number n hn
  have hplace := place_pick which hnumber₁ hnumber₂
  refine ⟨gives_pick which ha hb, ?_, ⟨_, rfl, ?_⟩, ?_, ?_, ?_⟩
  · -- The other way around the same number is picked, since a place determines it.
    rw [pick_comm which h (.of_mem hm) (.of_mem hn)]
    exact gives_pick which hb ha
  · rw [isFloat_pick, Bool.or_eq_true]
  · rcases pick_cases which hnumber₁ hnumber₂ with ⟨-, hleft⟩ | ⟨-, hright⟩
    · exact .inl (Operator.holds_eq hv ha hnumber hnumber₁ (hplace.trans hleft))
    · exact .inr (Operator.holds_eq hv hb hnumber hnumber₂ (hplace.trans hright))
  · apply bounds_of_place hv ha hnumber hnumber₁
    rw [hplace]
    cases which
    · exact min_eq_left (min_le_left _ _)
    · exact max_eq_left (le_max_left _ _)
  · apply bounds_of_place hv hb hnumber hnumber₂
    rw [hplace]
    cases which
    · exact min_eq_left (min_le_right _ _)
    · exact max_eq_left (le_max_right _ _)

/-- **The smaller and the greater of two numbers follow the laws of a lattice**, in any mix of
    integers, floats and booleans, and agree with the comparisons. A float that is no number gives
    way to the other operand, which becomes a float. -/
theorem scalars_form_lattice :
    (∀ (a b c : Value) (m n k : Number), a.payload.ReadsAs m → b.payload.ReadsAs n →
      c.payload.ReadsAs k → Comparable [m, n, k] → IsLattice a b c m n k)
    ∧ ∀ (which : Extreme) (a b : Value) (m n : Number), a.payload.ReadsAs m → b.payload.ReadsAs n →
      m.toFloat.isNaN = true → n.toFloat.isNaN = false →
      which.filter.Gives a b (.float n.toFloat) ∧ which.filter.Gives b a (.float n.toFloat) := by
  constructor
  · intro a b c m n k ha hb hc h
    have hm : m ∈ [m, n, k] := by simp
    have hn : n ∈ [m, n, k] := by simp
    have hk : k ∈ [m, n, k] := by simp
    refine ⟨fun which => ⟨_, picks_pick which h hm hn ha hb⟩, fun which => ?_, ?_⟩
    · refine ⟨_, _, _, gives_pick which ha hb, gives_pick which hb hc,
        gives_pick which (.scalar _) hc, ?_⟩
      rw [pick_assoc which h (.of_mem hm) (.of_mem hn) (.of_mem hk)]
      exact gives_pick which ha (.scalar _)
    · have hgreater : From [m, n, k] (max.pick m n) := from_pick h (.of_mem hm) (.of_mem hn)
      have hv : From [m, n, k] (min.pick m (max.pick m n)) := from_pick h (.of_mem hm) hgreater
      -- The greater of two and then the smaller one: the place is that of the first, which is what
      -- the comparison sees.
      refine ⟨_, _, gives_pick max ha hb, gives_pick min ha (.scalar _), ?_⟩
      apply Operator.holds_eq (.scalar _) ha (hv.isNaN h) (h.number m hm)
      rw [place_pick min (h.number m hm) (hgreater.isNaN h),
        place_pick max (h.number m hm) (h.number n hn)]
      exact min_eq_left (le_max_left _ _)
  · intro which a b m n ha hb hm hn
    obtain ⟨hpick, hpick'⟩ := pick_of_isNaN which hm hn
    refine ⟨?_, ?_⟩
    · have hgives := gives_pick which ha hb
      rw [hpick] at hgives
      exact hgives
    · have hgives := gives_pick which hb ha
      rw [hpick'] at hgives
      exact hgives

/-- A boolean, an integer and a float. -/
theorem scalars_of_every_domain :
    IsLattice (.boolean true) (.int 2) (.float 1.5) (.int 1) (.int 2) (.float 1.5)
      ∧ Filter.scalarMin.Gives (.float (0 / 0)) (.int 2) (.float (Number.int 2).toFloat) := by
  have hcomparable : Comparable [.int 1, .int 2, .float 1.5] := by
    refine ⟨by decide +kernel, ?_⟩
    unfold OppositeZeros
    decide +kernel
  exact ⟨scalars_form_lattice.1 _ _ _ _ _ _ .yes (.scalar _) (.scalar _) hcomparable,
    (scalars_form_lattice.2 min _ _ _ _ (.scalar _) (.scalar _) (by decide +kernel)
      (by decide +kernel)).1⟩

end Extreme

end MeshExpr
