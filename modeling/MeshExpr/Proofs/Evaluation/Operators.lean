import MeshExpr.Eval.Compute
import MeshExpr.Proofs.Number.Value

namespace MeshExpr

open FloatValue

/-!
# What operators compute

The table of an operator lists every pair of operands with what comes out of it. It is written down
in exact arithmetic: integers are combined as integers without bounds, and a bound is only met by
what comes out. Nothing in it depends on the attributes of the operands.

* `Payload.ReadsAs` — which number an operand is taken for.
* `Operator.combined?` and `Operator.compared?` — what an operator stands for in any domain.
* `Operator.Table` — the table.
* `Operator.exists_table` and `Operator.Table.unique` — it has one entry for every two operands.
* `Operator.compute_eq_table` — **the filter computes its table**.
-/

/-- The kind of a payload. -/
def Payload.kind (p : Payload) : ValueKind := (⟨p, ∅⟩ : Value).kind

/-- The number that an operand is taken for; booleans are the integers 0 and 1. -/
inductive Payload.ReadsAs : Payload → Number → Prop
  | scalar (n : Number) : ReadsAs (.scalar n) n
  | no : ReadsAs (.boolean false) (.int 0)
  | yes : ReadsAs (.boolean true) (.int 1)

/-- The float `x` is the integer `n`, with the sign of `n`; zero has none. -/
structure IsIntegral (x : Float) (n : ℤ) : Prop where
  finite : x.isFinite = true
  exact : value x = n
  sign : Decimal.isNegative x = true ↔ n < 0

namespace Operator

/-- The result of an operation; how a quotient is formed depends on the domain. -/
def combined? {α : Type} [Add α] [Sub α] [Mul α] (quotient : α) (a b : α) : Operator → Option α
  | add => some (a + b)
  | sub => some (a - b)
  | mul => some (a * b)
  | div => some quotient
  | _ => none

/-- The result of a comparison. -/
def compared? {α : Type} [LT α] [DecidableLT α] [LE α] [DecidableLE α] [BEq α] (a b : α) :
    Operator → Option Bool
  | lt => some (a < b)
  | le => some (a ≤ b)
  | gt => some (a > b)
  | ge => some (a ≥ b)
  | eq => some (a == b)
  | _ => none

/-- The exact result of an operation on integers; a quotient is rounded toward zero. -/
def exactResult? (op : Operator) (m n : ℤ) : Option ℤ := op.combined? (towardZero (m / n)) m n

/-- The entries of the table of an operator. -/
inductive Table (op : Operator) : Payload → Payload → Except EvalError Payload → Prop
  | noLeft (b : Payload) :
    Table op .empty b (.error (.typeMismatch .binaryOp (.notSupplied "lhs")))
  | noRight {a : Payload} (ha : a.kind ≠ .empty) :
    Table op a .empty (.error (.typeMismatch .binaryOp (.notSupplied "rhs")))
  | sum (h : op = add) (u v : Vec3) :
    Table op (.vector u) (.vector v) (.ok (.vector ⟨u.x + v.x, u.y + v.y, u.z + v.z⟩))
  | difference (h : op = sub) (u v : Vec3) :
    Table op (.vector u) (.vector v) (.ok (.vector ⟨u.x - v.x, u.y - v.y, u.z - v.z⟩))
  | unsupported (hadd : op ≠ add) (hsub : op ≠ sub) (u v : Vec3) :
    Table op (.vector u) (.vector v) (.error (.unsupportedOperator op))
  /-- One operand is a vector and the other one is not. -/
  | mixed {a b : Payload} (ha : a.kind ≠ .empty) (hb : b.kind ≠ .empty)
    (hone : Xor (a.kind = .vector) (b.kind = .vector)) :
    Table op a b (.error (.typeMismatch .binaryOp (.mixed op a.kind b.kind)))
  /-- One operand is the name of a field or a histogram. -/
  | notNumeric {a b : Payload} (ha : a.kind ≠ .empty ∧ a.kind ≠ .vector)
    (hb : b.kind ≠ .empty ∧ b.kind ≠ .vector)
    (hone : a.kind = .fieldRef ∨ a.kind = .histogram ∨ b.kind = .fieldRef ∨ b.kind = .histogram) :
    Table op a b (.error (.typeMismatch .binaryOp (.notNumeric op a.kind b.kind)))
  | byZero {a b : Payload} {m : Int32} (ha : a.ReadsAs (.int m)) (hb : b.ReadsAs (.int 0))
    (h : op = div) : Table op a b (.error .divisionByZero)
  | integer {a b : Payload} {m n r : Int32} (ha : a.ReadsAs (.int m)) (hb : b.ReadsAs (.int n))
    (hdiv : op = div → n ≠ 0) (hresult : op.exactResult? m.toInt n.toInt = some r.toInt) :
    Table op a b (.ok (.scalar (.int r)))
  | overflow {a b : Payload} {m n : Int32} {r : ℤ} (ha : a.ReadsAs (.int m))
    (hb : b.ReadsAs (.int n)) (hdiv : op = div → n ≠ 0)
    (hresult : op.exactResult? m.toInt n.toInt = some r) (hr : r < -2 ^ 31 ∨ 2 ^ 31 - 1 < r) :
    Table op a b (.error (.integerOverflow m op n))
  | integerOrder {a b : Payload} {m n : Int32} {r : Bool} (ha : a.ReadsAs (.int m))
    (hb : b.ReadsAs (.int n)) (hresult : op.compared? m.toInt n.toInt = some r) :
    Table op a b (.ok (.boolean r))
  | float {a b : Payload} {m n : Number} {r : Float} (ha : a.ReadsAs m) (hb : b.ReadsAs n)
    (hfloat : m.isFloat ∨ n.isFloat)
    (hresult : op.combined? (m.toFloat / n.toFloat) m.toFloat n.toFloat = some r) :
    Table op a b (.ok (.scalar (.float r)))
  | floatOrder {a b : Payload} {m n : Number} {r : Bool} (ha : a.ReadsAs m) (hb : b.ReadsAs n)
    (hfloat : m.isFloat ∨ n.isFloat) (hresult : op.compared? m.toFloat n.toFloat = some r) :
    Table op a b (.ok (.boolean r))

variable {op : Operator} {lhs rhs : Value} {m n : Int32} {a b : Number}

/-! ### Operands -/

/-- An operand that is taken for a number is no vector, and the filter reads the same number. -/
theorem numeric?_of_readsAs {v : Value} (h : v.payload.ReadsAs a) :
    v.vector? = none ∧ v.numeric? = some a := by
  obtain ⟨p, attrs⟩ := v
  change p.ReadsAs a at h
  cases h <;> exact ⟨rfl, rfl⟩

/-- Such an operand is not empty. -/
theorem kind_of_readsAs {p : Payload} (h : p.ReadsAs a) : p.kind ≠ .empty := by
  cases h <;> exact ValueKind.noConfusion

/-- Only one payload is empty. -/
theorem eq_empty {p : Payload} (h : p.kind = .empty) : p = .empty := by
  cases p with
  | empty => rfl
  | scalar _ | vector _ | boolean _ | fieldRef _ | histogram _ => cases h

/-- A payload of the kind of vectors is one. -/
theorem eq_vector {p : Payload} (h : p.kind = .vector) : ∃ v, p = .vector v := by
  cases p with
  | vector v => exact ⟨v, rfl⟩
  | empty | scalar _ | boolean _ | fieldRef _ | histogram _ => cases h

/-- An operand that is neither empty nor a vector is a number, the name of a field, or a histogram.
    -/
theorem reads_or_not {p : Payload} (hempty : p.kind ≠ .empty) (hvector : p.kind ≠ .vector) :
    (∃ n, p.ReadsAs n) ∨ p.kind = .fieldRef ∨ p.kind = .histogram := by
  cases p with
  | empty => exact absurd rfl hempty
  | vector _ => exact absurd rfl hvector
  | scalar n => exact .inl ⟨n, .scalar n⟩
  | boolean b => cases b with
    | false => exact .inl ⟨_, .no⟩
    | true => exact .inl ⟨_, .yes⟩
  | fieldRef _ => exact .inr (.inl rfl)
  | histogram _ => exact .inr (.inr rfl)

/-- The filter finds the vector in an operand that is one. -/
theorem exists_vector? {v : Value} (h : v.payload.kind = .vector) : ∃ w, v.vector? = some w := by
  obtain ⟨w, hw⟩ := eq_vector h
  unfold Value.vector?
  rw [hw]
  exact ⟨w, rfl⟩

/-- It finds none in the others. -/
theorem vector?_eq_none {v : Value} (h : v.payload.kind ≠ .vector) : v.vector? = none := by
  obtain ⟨p, attrs⟩ := v
  cases p with
  | vector w => exact absurd rfl h
  | empty | scalar _ | boolean _ | fieldRef _ | histogram _ => rfl

/-- It finds no number in names of fields and histograms. -/
theorem numeric?_eq_none {v : Value}
    (h : v.payload.kind = .fieldRef ∨ v.payload.kind = .histogram) :
    v.numeric? = none := by
  obtain ⟨p, attrs⟩ := v
  cases p with
  | fieldRef _ | histogram _ => rfl
  | empty | scalar _ | vector _ | boolean _ => rcases h with h | h <;> cases h

/-! ### Integers -/

/-- An integer out of bounds is refused. -/
theorem ofInt?_eq_none {r : ℤ} (hr : r < -2 ^ 31 ∨ 2 ^ 31 - 1 < r) : Number.ofInt? r = none := by
  unfold Number.ofInt? Number.minInt32 Number.maxInt32
  rw [if_neg (by omega)]

/-- An operation on integers has the exact result, before the bounds are looked at. -/
theorem onInts_of_arithmetic {r : ℤ} (hdiv : op = div → n ≠ 0)
    (h : op.exactResult? m.toInt n.toInt = some r) : op.onInts m n = checked op m n r := by
  unfold exactResult? combined? at h
  cases op with
  | add | sub | mul =>
    obtain rfl := Option.some.inj h
    rfl
  | div =>
    obtain rfl := Option.some.inj h
    unfold onInts
    dsimp only
    rw [if_neg (hdiv rfl), towardZero_div]
  | lt | le | gt | ge | eq => cases h

/-- A comparison of integers is one of their exact values. -/
theorem onInts_of_comparison {r : Bool} (h : op.compared? m.toInt n.toInt = some r) :
    op.onInts m n = .ok (.boolean r) := by
  unfold compared? at h
  unfold onInts
  cases op with
  | add | sub | mul | div => cases h
  | lt | gt =>
    obtain rfl := Option.some.inj h
    simp only [Int32.lt_iff_toInt_lt, gt_iff_lt]
  | le | ge =>
    obtain rfl := Option.some.inj h
    simp only [Int32.le_iff_toInt_le, ge_iff_le]
  | eq =>
    obtain rfl := Option.some.inj h
    -- Integers are equal exactly if their values are.
    have heq : (m == n) = (m.toInt == n.toInt) := by
      rw [Bool.eq_iff_iff, beq_iff_eq, beq_iff_eq, Int32.toInt_inj]
    dsimp only
    rw [heq]

/-- Integers have an entry for every operator. -/
theorem exists_table_of_ints {p q : Payload} (hp : p.ReadsAs (.int m)) (hq : q.ReadsAs (.int n)) :
    ∃ r, op.Table p q r := by
  -- In the order of the table: a division by zero, a comparison, and a result that fits or does
  -- not.
  by_cases hzero : op = div ∧ n = 0
  · obtain ⟨hdiv, rfl⟩ := hzero
    exact ⟨_, .byZero hp hq hdiv⟩
  have hdiv : op = div → n ≠ 0 := fun h hn => hzero ⟨h, hn⟩
  cases hexact : op.exactResult? m.toInt n.toInt with
  | none =>
    obtain ⟨r, hr⟩ : ∃ r, op.compared? m.toInt n.toInt = some r := by
      cases op with
      | add | sub | mul | div => cases hexact
      | lt | le | gt | ge | eq => exact ⟨_, rfl⟩
    exact ⟨_, .integerOrder hp hq hr⟩
  | some r =>
    by_cases hr : -2 ^ 31 ≤ r ∧ r < 2 ^ 31
    · have hfits : (Int32.ofInt r).toInt = r := Int32.toInt_ofInt_of_le hr.1 hr.2
      exact ⟨.ok (.scalar (.int (Int32.ofInt r))), .integer hp hq hdiv (by rw [hexact, hfits])⟩
    · exact ⟨_, .overflow hp hq hdiv hexact (by omega)⟩

/-- Two numbers of which one is a float have an entry for every operator. -/
theorem exists_table_of_floats {p q : Payload} (hp : p.ReadsAs a) (hq : q.ReadsAs b)
    (hfloat : a.isFloat ∨ b.isFloat) : ∃ r, op.Table p q r := by
  cases op with
  | add | sub | mul | div => exact ⟨_, .float hp hq hfloat rfl⟩
  | lt | le | gt | ge | eq => exact ⟨_, .floatOrder hp hq hfloat rfl⟩

/-! ### Every pair of operands -/

/-- What an operator makes of two operands, one of which may be left out. -/
def outcome (op : Operator) (lhs rhs : Value) : Except EvalError Value := do
  let lhs ← Inputs.required [lhs, rhs] 0 .binaryOp "lhs"
  let rhs ← Inputs.required [lhs, rhs] 1 .binaryOp "rhs"
  op.apply lhs rhs

/-- Operands that are there are handed on as they are. -/
theorem outcome_of_supplied (hl : lhs.payload.kind ≠ .empty) (hr : rhs.payload.kind ≠ .empty) :
    op.outcome lhs rhs = op.apply lhs rhs := by
  obtain ⟨p, attrs⟩ := lhs
  obtain ⟨q, attrs'⟩ := rhs
  cases p with
  | empty => exact absurd rfl hl
  | scalar _ | vector _ | boolean _ | fieldRef _ | histogram _ =>
    cases q with
    | empty => exact absurd rfl hr
    | scalar _ | vector _ | boolean _ | fieldRef _ | histogram _ => rfl

/-- Two operands that are taken for numbers are combined as these. -/
theorem outcome_of_numbers (hl : lhs.payload.ReadsAs a) (hr : rhs.payload.ReadsAs b) :
    op.outcome lhs rhs = op.onNumbers a b := by
  obtain ⟨hvector, hnumeric⟩ := numeric?_of_readsAs hl
  obtain ⟨hvector', hnumeric'⟩ := numeric?_of_readsAs hr
  rw [outcome_of_supplied (kind_of_readsAs hl) (kind_of_readsAs hr)]
  unfold apply
  rw [hvector, hvector', hnumeric, hnumeric']

/-- If one of them is a float, then both are taken as floats, and nothing can go wrong. -/
theorem outcome_of_floats (hl : lhs.payload.ReadsAs a) (hr : rhs.payload.ReadsAs b)
    (hfloat : a.isFloat ∨ b.isFloat) :
    op.outcome lhs rhs = .ok (op.onFloats a.toFloat b.toFloat) := by
  have hdomain : Number.Domain.of a b = .float := by
    unfold Number.Domain.of
    rw [if_pos (by simpa using hfloat)]
  rw [outcome_of_numbers hl hr]
  unfold onNumbers
  rw [hdomain]

/-- Each entry of the table says what comes out. -/
theorem outcome_of_table {r : Except EvalError Payload} (h : op.Table lhs.payload rhs.payload r) :
    op.outcome lhs rhs = r.map fun p => ⟨p, ∅⟩ := by
  obtain ⟨p, attrs⟩ := lhs
  obtain ⟨q, attrs'⟩ := rhs
  -- One case for each kind of entry.
  cases h with
  | noLeft => rfl
  | noRight ha =>
    cases p with
    | empty => exact absurd rfl ha
    | scalar _ | vector _ | boolean _ | fieldRef _ | histogram _ => rfl
  | sum h u v =>
    subst h
    rfl
  | difference h u v =>
    subst h
    rfl
  | unsupported hadd hsub u v =>
    cases op with
    | add => exact absurd rfl hadd
    | sub => exact absurd rfl hsub
    | mul | div | lt | le | gt | ge | eq => rfl
  | mixed ha hb hone =>
    rw [outcome_of_supplied ha hb]
    unfold apply
    rcases hone with ⟨hleft, hright⟩ | ⟨hright, hleft⟩
    · obtain ⟨u, hu⟩ := exists_vector? hleft
      rw [hu, vector?_eq_none hright]
      rfl
    · obtain ⟨v, hv⟩ := exists_vector? hright
      rw [hv, vector?_eq_none hleft]
      rfl
  | notNumeric ha hb hone =>
    rw [outcome_of_supplied ha.1 hb.1]
    unfold apply
    rw [vector?_eq_none ha.2, vector?_eq_none hb.2]
    rcases or_assoc.mpr hone with hleft | hright
    · rw [numeric?_eq_none hleft]
      rfl
    · rw [numeric?_eq_none hright]
      cases (Value.mk p attrs).numeric? <;> rfl
  | byZero ha hb h =>
    subst h
    exact outcome_of_numbers ha hb
  | integer ha hb hdiv hresult =>
    have hchecked := (outcome_of_numbers ha hb).trans (onInts_of_arithmetic hdiv hresult)
    rw [hchecked]
    unfold checked
    rw [Number.ofInt?_toInt]
    rfl
  | overflow ha hb hdiv hresult hr =>
    have hchecked := (outcome_of_numbers ha hb).trans (onInts_of_arithmetic hdiv hresult)
    rw [hchecked]
    unfold checked
    rw [ofInt?_eq_none hr]
    rfl
  | integerOrder ha hb hresult =>
    rw [outcome_of_numbers ha hb]
    exact onInts_of_comparison hresult
  | float ha hb hfloat hresult =>
    rw [outcome_of_floats ha hb hfloat]
    cases op with
    | add | sub | mul | div =>
      obtain rfl := Option.some.inj hresult
      rfl
    | lt | le | gt | ge | eq => cases hresult
  | floatOrder ha hb hfloat hresult =>
    rw [outcome_of_floats ha hb hfloat]
    cases op with
    | add | sub | mul | div => cases hresult
    | lt | le | gt | ge | eq =>
      obtain rfl := Option.some.inj hresult
      rfl

/-- Two vectors have an entry for every operator. -/
theorem exists_table_of_vectors (op : Operator) (u v : Vec3) :
    ∃ r, op.Table (.vector u) (.vector v) r := by
  by_cases hadd : op = add
  · exact ⟨_, .sum hadd u v⟩
  by_cases hsub : op = sub
  · exact ⟨_, .difference hsub u v⟩
  exact ⟨_, .unsupported hadd hsub u v⟩

/-- Two numbers have an entry for every operator. -/
theorem exists_table_of_numbers {p q : Payload} (hp : p.ReadsAs a) (hq : q.ReadsAs b) :
    ∃ r, op.Table p q r := by
  cases a with
  | float x => exact exists_table_of_floats hp hq (.inl rfl)
  | int m => cases b with
    | float y => exact exists_table_of_floats hp hq (.inr rfl)
    | int n => exact exists_table_of_ints hp hq

/-- The table has an entry for every pair of operands. -/
theorem exists_table (op : Operator) (p q : Payload) : ∃ r, op.Table p q r := by
  by_cases hp : p.kind = .empty
  · obtain rfl := eq_empty hp
    exact ⟨_, .noLeft q⟩
  by_cases hq : q.kind = .empty
  · obtain rfl := eq_empty hq
    exact ⟨_, .noRight hp⟩
  by_cases hvector : p.kind = .vector
  · by_cases hvector' : q.kind = .vector
    · obtain ⟨u, rfl⟩ := eq_vector hvector
      obtain ⟨v, rfl⟩ := eq_vector hvector'
      exact exists_table_of_vectors op u v
    · exact ⟨_, .mixed hp hq (.inl ⟨hvector, hvector'⟩)⟩
  by_cases hvector' : q.kind = .vector
  · exact ⟨_, .mixed hp hq (.inr ⟨hvector', hvector⟩)⟩
  -- Two operands that are there and are no vectors.
  rcases reads_or_not hp hvector with ⟨a, ha⟩ | ha
  · rcases reads_or_not hq hvector' with ⟨b, hb⟩ | hb
    · exact exists_table_of_numbers ha hb
    · exact ⟨_, .notNumeric ⟨hp, hvector⟩ ⟨hq, hvector'⟩ (.inr (.inr hb))⟩
  · exact ⟨_, .notNumeric ⟨hp, hvector⟩ ⟨hq, hvector'⟩ (or_assoc.mp (.inl ha))⟩

/-- Payloads without attributes are told apart as values. -/
theorem map_injective : Function.Injective
    fun r : Except EvalError Payload => r.map fun p => (⟨p, ∅⟩ : Value) := by
  intro r r' h
  cases r with
  | error e => cases r' with
    | error e' => exact congrArg _ (Except.error.inj h)
    | ok p' => cases h
  | ok p => cases r' with
    | error e' => cases h
    | ok p' => exact congrArg _ (congrArg Value.payload (Except.ok.inj h))

/-- No pair of operands has two entries. -/
theorem Table.unique {p q : Payload} {r r' : Except EvalError Payload} (h : op.Table p q r)
    (h' : op.Table p q r') : r = r' := by
  have houtcome : op.outcome ⟨p, ∅⟩ ⟨q, ∅⟩ = _ := outcome_of_table h
  have houtcome' : op.outcome ⟨p, ∅⟩ ⟨q, ∅⟩ = _ := outcome_of_table h'
  exact map_injective (houtcome.symm.trans houtcome')

/-- **Nothing is lost** when an integer is taken as a float. -/
theorem isIntegral_toFloat (n : Int32) : IsIntegral (Number.int n).toFloat n.toInt := by
  have hn := natAbs_toInt_lt n
  exact ⟨isFinite_ofInt hn, value_ofInt hn, isNegative_ofInt hn⟩

/-- **The filter computes its table.** For every operator and every two operands the table has one
    entry; that is the value of the filter, which carries no attributes, or the error that it fails
    with. Where the table takes a number as a float, nothing is lost, be it an integer or a
    float. -/
theorem compute_eq_table (op : Operator) (ctx : Context) (lhs rhs : Value) :
    (∃ r, (∀ r', op.Table lhs.payload rhs.payload r' ↔ r' = r)
      ∧ Filter.binaryOp.compute ctx [lhs, rhs] (.op op) = Eval.ofExcept (r.map fun p => ⟨p, ∅⟩))
      ∧ (∀ n : Int32, IsIntegral (Number.int n).toFloat n.toInt)
      ∧ ∀ x : Float, (Number.float x).toFloat = x := by
  refine ⟨?_, isIntegral_toFloat, fun _ => rfl⟩
  obtain ⟨r, hr⟩ := exists_table op lhs.payload rhs.payload
  have houtcome := outcome_of_table hr
  refine ⟨r, fun r' => ⟨fun hr' => hr'.unique hr, fun heq => heq ▸ hr⟩, ?_⟩
  show Eval.ofExcept (op.outcome lhs rhs) = _
  rw [houtcome]

/-- A truth value and a float are added as floats. -/
example : Filter.binaryOp.compute {} [⟨.boolean true, ∅⟩, ⟨.scalar (.float 2.5), ∅⟩] (.op add)
    = pure ⟨.scalar (.float 3.5), ∅⟩ := by rfl

/-- The quotient of the least integer by minus one has no place in thirty-two bits. -/
example : Filter.binaryOp.compute {}
      [⟨.scalar (.int (-2147483648)), ∅⟩, ⟨.scalar (.int (-1)), ∅⟩] (.op div)
    = throw (.integerOverflow (-2147483648) div (-1)) := by rfl

end Operator
end MeshExpr
