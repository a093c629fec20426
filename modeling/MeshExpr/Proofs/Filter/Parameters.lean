import MeshExpr.Filter.Param
import MeshExpr.Proofs.Number.Value

namespace MeshExpr

open FloatValue

/-!
# Which parameters are accepted

What a filter accepts is said without the order in which a check goes about it, and with exact
rational numbers in the place of the three ways in which a document can hold a number.

* `Text.whiteSpace` — the blank characters by their code points.
* `ParamSpec.Accepts` — the parameter that is taken from given parameters.
* `ParamSpec.read_eq_ok_iff` — the required key: what is read is what is accepted.
* `ParamSpec.validate_eq` — a check notes what is wrong behind what was noted before.
* `ParamSpec.Validated` and `ParamSpec.validated_of_validate` — **exactly the specified parameters
  are accepted, and every problem is reported**.
-/

/-- The code points with the property `White_Space`. -/
def Text.whiteSpace : List ℕ :=
  [0x9, 0xA, 0xB, 0xC, 0xD, 0x20, 0x85, 0xA0, 0x1680, 0x2000, 0x2001, 0x2002, 0x2003, 0x2004,
    0x2005, 0x2006, 0x2007, 0x2008, 0x2009, 0x200A, 0x2028, 0x2029, 0x202F, 0x205F, 0x3000]

/-- A character is blank if its code point is one of these. -/
theorem Text.isBlankChar_iff {c : Char} : isBlankChar c = true ↔ c.toNat ∈ whiteSpace := by
  unfold isBlankChar blankRanges whiteSpace
  simp only [List.any_cons, List.any_nil, Bool.or_false, Bool.or_eq_true, Bool.and_eq_true,
    decide_eq_true_eq, List.mem_cons, List.not_mem_nil, or_false]
  omega

/-- The parameter that a filter asks for when it takes one of this sort. -/
def Param.spec : Param → ParamSpec
  | .nothing => .nothing
  | .name _ => .name
  | .int _ => .int
  | .float _ => .float
  | .op _ => .op

/-- The key that a violation is about. -/
def Violation.key : Violation → String
  | unexpected key | missingString key | missingNumber key | blankString key => key
  | notString key _ | notNumber key _ | outOfRange key _ => key
  | unsupportedOperator _ => ParamSpec.opKey

/-- A JSON number and its exact value. -/
inductive Json.IsNumber : Json → ℚ → Prop
  | int (n : ℤ) : IsNumber (.int n) n
  | float (x : Float) (hx : x.isFinite = true) : IsNumber (.float x) (FloatValue.value x)

/-- The nine tokens and what they stand for. -/
def Operator.tokens : List (String × Operator) :=
  [("+", add), ("-", sub), ("*", mul), ("/", div), ("<", lt), ("<=", le), (">", gt), (">=", ge),
    ("==", eq)]

/-- The tokens of the list are those that the check knows. -/
theorem Operator.mem_tokens_iff {token : String} {op : Operator} :
    (token, op) ∈ tokens ↔ ofToken? token = some op := by
  rw [ofToken?_eq_some_iff]
  constructor
  · intro h
    have hall : ∀ entry ∈ tokens, entry.2.token = entry.1 := by decide
    exact hall _ h
  · rintro rfl
    cases op <;> decide

namespace ParamSpec

/-- The parameter that a filter takes from given parameters. -/
inductive Accepts (params : RawParams) : ParamSpec → Param → Prop
  | nothing (h : params = ∅) : Accepts params .nothing .nothing
  /-- A string with a character that is not blank is taken with all of its blanks. -/
  | name {s : String} (h : params.get? "value" = some (.string s))
    (hs : ∃ c ∈ s.toList, c.toNat ∉ Text.whiteSpace) : Accepts params .name (.name s)
  /-- A number within the bounds loses its fraction. -/
  | int {j : Json} {q : ℚ} {n : Int32} (h : params.get? "value" = some j) (hj : j.IsNumber q)
    (hlow : -2 ^ 31 ≤ q) (hhigh : q ≤ 2 ^ 31 - 1) (hn : n.toInt = towardZero q) :
    Accepts params .int (.int n)
  | float {x : Float} (h : params.get? "value" = some (.float x)) : Accepts params .float (.float x)
  | floatOfInt {n : ℤ} (h : params.get? "value" = some (.int n)) :
    Accepts params .float (.float (Float.ofInt n))
  | op {token : String} {op : Operator} (h : params.get? "op_string" = some (.string token))
    (hop : (token, op) ∈ Operator.tokens) : Accepts params .op (.op op)

variable {spec : ParamSpec} {params : RawParams} {param : Param}

/-! ### Numbers -/

/-- The bounds are checked on the exact value of a float, not on its integer part. -/
theorem inBounds_int32_iff {x : Float} :
    Decimal.inBounds Number.minInt32 Number.maxInt32 x = true
      ↔ -2 ^ 31 ≤ value x ∧ value x ≤ 2 ^ 31 - 1 := by
  have hlow : ((Number.minInt32 : ℤ) : ℚ) = -2 ^ 31 := by
    unfold Number.minInt32
    norm_num
  have hhigh : ((Number.maxInt32 : ℤ) : ℚ) = 2 ^ 31 - 1 := by
    unfold Number.maxInt32
    norm_num
  rw [inBounds_iff, hlow, hhigh]

/-- The integer part that is taken is that of the exact value, which must lie within the bounds
    itself. -/
theorem integerPart?_eq_some_iff {j : Json} {n : Int32} :
    integerPart? j = some n ↔
      ∃ q, j.IsNumber q ∧ -2 ^ 31 ≤ q ∧ q ≤ 2 ^ 31 - 1 ∧ n.toInt = towardZero q := by
  constructor
  · intro h
    cases j with
    | int k =>
      obtain ⟨hlow, hhigh, hn⟩ := Number.ofInt?_eq_some_iff.mp h
      refine ⟨k, .int k, ?_, ?_, hn.trans (towardZero_intCast k).symm⟩
      · exact_mod_cast hlow
      · exact_mod_cast hhigh
    | float x =>
      unfold integerPart? at h
      dsimp only at h
      split at h
      · rename_i hx
        rw [Bool.and_eq_true, inBounds_int32_iff] at hx
        obtain ⟨hfinite, hlow, hhigh⟩ := hx
        obtain rfl := Option.some.inj h
        -- The integer part lies between the number and zero, hence within the same bounds.
        have hbounds : -2 ^ 31 ≤ towardZero (value x) ∧ towardZero (value x) ≤ 2 ^ 31 - 1 :=
          towardZero_mem_bounds (by push_cast; linarith) (by push_cast; linarith) (by decide)
            (by decide)
        refine ⟨_, .float x hfinite, hlow, hhigh, ?_⟩
        rw [truncate_eq]
        exact Int32.toInt_ofInt_of_le hbounds.1 (by omega)
      · cases h
    | null | bool _ | string _ | list _ | object _ => cases h
  · rintro ⟨q, hq, hlow, hhigh, hn⟩
    cases hq with
    | int k =>
      rw [towardZero_intCast] at hn
      refine Number.ofInt?_eq_some_iff.mpr ⟨?_, ?_, hn⟩
      · exact_mod_cast hlow
      · exact_mod_cast hhigh
    | float x hx =>
      have hin := inBounds_int32_iff.mpr ⟨hlow, hhigh⟩
      unfold integerPart?
      dsimp only
      rw [hx, hin, truncate_eq, ← hn, Int32.ofInt_toInt]
      rfl

/-! ### The required key -/

/-- A text is not blank if it has a character that is none of the blank ones. -/
theorem isBlank_eq_false_iff {s : String} :
    Text.isBlank s = false ↔ ∃ c ∈ s.toList, c.toNat ∉ Text.whiteSpace := by
  unfold Text.isBlank
  rw [List.all_eq_false]
  simp only [Text.isBlankChar_iff]

/-- Where no parameter is wanted, every key is foreign. -/
theorem foreignKeys_nothing : ParamSpec.nothing.foreignKeys params = params.names := by
  unfold foreignKeys keys
  exact List.filter_eq_self.mpr fun _ _ => rfl

/-- Parameters without a key are none at all. -/
theorem names_eq_nil_iff : params.names = [] ↔ params = ∅ := by
  unfold Named.names
  rw [List.map_eq_nil_iff]
  exact ⟨fun h => Named.ext_entries h, fun h => h ▸ rfl⟩

/-- A name is read if it is a string with a character that is not blank. -/
theorem read_name_eq_ok_iff :
    ParamSpec.name.read params = .ok param ↔ Accepts params .name param := by
  constructor
  · intro h
    unfold read at h
    dsimp only at h
    -- Without the key, with a string, and with anything else.
    split at h
    · cases h
    · rename_i s hs
      split at h
      · cases h
      · rename_i hblank
        obtain rfl := Except.ok.inj h
        exact .name hs (isBlank_eq_false_iff.mp (Bool.not_eq_true _ ▸ hblank))
    · cases h
  · intro h
    cases h with
    | name h hs =>
      unfold read valueKey
      rw [h]
      dsimp only
      rw [isBlank_eq_false_iff.mpr hs]
      rfl

/-- Only numbers have an integer part. -/
theorem float?_isSome_of_isNumber {j : Json} {q : ℚ} (h : j.IsNumber q) :
    j.float?.isNone = false := by
  cases h <;> rfl

/-- An integer is read if it is a number within the bounds. -/
theorem read_int_eq_ok_iff :
    ParamSpec.int.read params = .ok param ↔ Accepts params .int param := by
  constructor
  · intro h
    unfold read at h
    dsimp only at h
    split at h
    · cases h
    · rename_i given hgiven
      split at h
      · cases h
      · split at h
        · rename_i n hn
          obtain rfl := Except.ok.inj h
          obtain ⟨q, hq, hlow, hhigh, htruncated⟩ := integerPart?_eq_some_iff.mp hn
          exact .int hgiven hq hlow hhigh htruncated
        · cases h
  · intro h
    cases h with
    | int h hj hlow hhigh hn =>
      -- What has an integer part is a number, so that the first test passes as well.
      have hpart := integerPart?_eq_some_iff.mpr ⟨_, hj, hlow, hhigh, hn⟩
      unfold read valueKey
      rw [h]
      dsimp only
      rw [float?_isSome_of_isNumber hj, hpart]
      rfl

/-- A float is read from every number. -/
theorem read_float_eq_ok_iff :
    ParamSpec.float.read params = .ok param ↔ Accepts params .float param := by
  constructor
  · intro h
    unfold read at h
    dsimp only at h
    split at h
    · cases h
    · rename_i given hgiven
      cases given with
      | int n =>
        obtain rfl := Except.ok.inj h
        exact .floatOfInt hgiven
      | float x =>
        obtain rfl := Except.ok.inj h
        exact .float hgiven
      | null | bool _ | string _ | list _ | object _ => cases h
  · intro h
    cases h with
    | float h | floatOfInt h =>
      unfold read valueKey
      rw [h]
      rfl

/-- An operator is read if its token is one of the nine. -/
theorem read_op_eq_ok_iff : ParamSpec.op.read params = .ok param ↔ Accepts params .op param := by
  constructor
  · intro h
    unfold read at h
    dsimp only at h
    split at h
    · cases h
    · rename_i token htoken
      split at h
      · rename_i op hop
        obtain rfl := Except.ok.inj h
        exact .op htoken (Operator.mem_tokens_iff.mpr hop)
      · cases h
    · cases h
  · intro h
    cases h with
    | op h hop =>
      have htoken := Operator.mem_tokens_iff.mp hop
      unfold read opKey
      rw [h]
      dsimp only
      rw [htoken]

/-- Without foreign keys, what is read is what is accepted. -/
theorem read_eq_ok_iff (hkeys : spec.foreignKeys params = []) :
    spec.read params = .ok param ↔ Accepts params spec param := by
  cases spec with
  | nothing =>
    rw [foreignKeys_nothing, names_eq_nil_iff] at hkeys
    constructor
    · intro h
      obtain rfl := Except.ok.inj h
      exact .nothing hkeys
    · intro h
      cases h
      rfl
  | name => exact read_name_eq_ok_iff
  | int => exact read_int_eq_ok_iff
  | float => exact read_float_eq_ok_iff
  | op => exact read_op_eq_ok_iff

/-- What is accepted is a parameter of the sort that was asked for. -/
theorem Accepts.spec_eq (h : Accepts params spec param) : param.spec = spec := by
  cases h <;> rfl

/-- A violation of the required key is about that key. -/
theorem key_mem_of_read {violation : Violation} (h : spec.read params = .error violation) :
    violation.key ∈ spec.keys ∧ ∀ key, violation ≠ .unexpected key := by
  unfold read at h
  cases spec with
  | nothing => cases h
  | name | int | float | op =>
    dsimp only at h
    repeat' split at h
    all_goals cases h
    all_goals exact ⟨List.mem_singleton.mpr rfl, fun _ => Violation.noConfusion⟩

/-! ### The whole check -/

/-- Noting the foreign keys as they are found is noting all of them behind what was there. -/
theorem noteForeign_eq (keys names earlier : List String) :
    names.foldl (fun noted key =>
      if keys.contains key then noted else noted ++ [(Violation.unexpected key).message]) earlier
      = earlier ++ ((names.filter fun key => !keys.contains key).map .unexpected).map
        Violation.message := by
  -- Along the keys, with what has been noted so far.
  induction names generalizing earlier with
  | nil => simp
  | cons name names ih =>
    rw [List.foldl_cons, ih]
    cases hkey : keys.contains name with
    | true => rw [if_pos rfl, List.filter_cons_of_neg (by rw [hkey]; decide)]
    | false =>
      rw [if_neg Bool.false_ne_true, List.filter_cons_of_pos (by rw [hkey]; decide),
        List.append_assoc]
      rfl

/-- The violation of the required key, if there is one. -/
def complaint? (spec : ParamSpec) (params : RawParams) : Option Violation :=
  match spec.read params with
  | .ok _ => none
  | .error violation => some violation

/-- First come the foreign keys, then what is wrong with the required one. -/
theorem violations_eq : spec.violations params
    = (spec.foreignKeys params).map .unexpected ++ (spec.complaint? params).toList := by
  unfold violations complaint?
  cases spec.read params <;> rfl

/-- Nothing is wrong if there is no foreign key and the required one can be read. -/
theorem toOption_check_eq_some_iff : (spec.check params).toOption = some param ↔
    spec.foreignKeys params = [] ∧ spec.read params = .ok param := by
  unfold check
  cases hkeys : spec.foreignKeys params with
  | cons key keys => simp [Except.toOption]
  | nil =>
    cases hread : spec.read params with
    | error violation => simp [Except.toOption]
    | ok p => simp [Except.toOption]

/-- There is no parameter if anything is wrong. -/
theorem toOption_check_eq_none_iff :
    (spec.check params).toOption = none ↔ spec.violations params ≠ [] := by
  unfold check violations
  cases hkeys : spec.foreignKeys params with
  | cons key keys => simp [Except.toOption]
  | nil =>
    cases hread : spec.read params with
    | error violation => simp [Except.toOption]
    | ok p => simp [Except.toOption]

/-- A check notes the foreign keys and then what is wrong with the required one, behind what was
    noted before, and has a parameter if nothing is added. -/
theorem validate_eq (spec : ParamSpec) (params : RawParams) (earlier : List String) :
    spec.validate params earlier
      = ((spec.check params).toOption, earlier ++ (spec.violations params).map (·.message)) := by
  have hforeign : (params.names.filter fun key => !spec.keys.contains key)
      = spec.foreignKeys params := rfl
  unfold validate
  rw [noteForeign_eq, hforeign]
  unfold check violations
  cases hread : spec.read params with
  | error violation => simp [Except.toOption]
  | ok param =>
    cases hkeys : spec.foreignKeys params with
    | nil => simp [Except.toOption]
    | cons key keys => simp [Except.toOption]

/-- What a check of given parameters comes to: the parameter, if there is one, and what is added to
    the messages. -/
structure Validated (spec : ParamSpec) (params : RawParams) (param : Option Param)
    (found : List Violation) : Prop where
  /-- Each foreign key is reported in its place, and then the required key once at most. -/
  reported : ∃ foreign : List String, ∃ complaint : Option Violation,
    found = foreign.map .unexpected ++ complaint.toList
      ∧ foreign.Pairwise (· < ·)
      ∧ (∀ key, key ∈ foreign ↔ key ∈ params.names ∧ key ∉ spec.keys)
      ∧ ∀ violation ∈ complaint,
        violation.key ∈ spec.keys ∧ ∀ key, violation ≠ .unexpected key
  none_iff : param = none ↔ found ≠ []
  some_iff : ∀ p, param = some p ↔
    (∀ key ∈ params.names, key ∈ spec.keys) ∧ Accepts params spec p
  sort : ∀ p, param = some p → p.spec = spec

/-- A key is foreign if the filter does not have it. -/
theorem mem_foreignKeys {key : String} :
    key ∈ spec.foreignKeys params ↔ key ∈ params.names ∧ key ∉ spec.keys := by
  unfold foreignKeys
  rw [List.mem_filter]
  simp

/-- Foreign keys are reported in order, and each of them once. -/
theorem pairwise_foreignKeys : (spec.foreignKeys params).Pairwise (· < ·) := by
  have hnames : params.names.Pairwise (· < ·) := by
    unfold Named.names
    rw [List.pairwise_map]
    exact params.ordered
  exact hnames.filter _

/-- **Exactly the specified parameters are accepted, and every problem is reported.** What is
    found does not depend on the messages that were noted earlier, and stands behind them. -/
theorem validated_of_validate (spec : ParamSpec) (params : RawParams) :
    ∃ param found, Validated spec params param found
      ∧ ∀ earlier, spec.validate params earlier = (param, earlier ++ found.map (·.message)) := by
  have hsome : ∀ p, (spec.check params).toOption = some p ↔
      (∀ key ∈ params.names, key ∈ spec.keys) ∧ Accepts params spec p := by
    intro p
    -- There is a parameter only if no key is foreign, and then it is what was read.
    have hforeign : spec.foreignKeys params = [] ↔ ∀ key ∈ params.names, key ∈ spec.keys := by
      simp [List.eq_nil_iff_forall_not_mem, mem_foreignKeys]
    rw [toOption_check_eq_some_iff, ← hforeign]
    exact and_congr_right read_eq_ok_iff
  refine ⟨(spec.check params).toOption, spec.violations params, ?_, validate_eq spec params⟩
  refine ⟨⟨spec.foreignKeys params, spec.complaint? params, violations_eq, pairwise_foreignKeys,
    fun _ => mem_foreignKeys, ?_⟩, toOption_check_eq_none_iff, hsome, ?_⟩
  · intro violation hviolation
    -- What is wrong with the required key is about a key of the filter.
    apply key_mem_of_read
    unfold complaint? at hviolation
    split at hviolation
    · cases hviolation
    · rename_i hread
      obtain rfl := Option.some.inj hviolation
      exact hread
  · intro p hp
    exact ((hsome p).mp hp).2.spec_eq

end ParamSpec

end MeshExpr
