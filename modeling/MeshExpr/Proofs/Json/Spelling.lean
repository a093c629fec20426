import MeshExpr.Json.Printer
import MeshExpr.Json.Reader
import MeshExpr.Proofs.Number.Finite

namespace MeshExpr.Json

/-!
# Numbers are scanned as they are written

Between a number and its text stands its spelling: the sign, the digits on either side of the point,
the exponent. What is written for a number is the text of a spelling in good order, and a text of
this kind is scanned as the spelling that it has, whatever may follow a number.

* `Spelling.chars` — the text of a spelling; `Spelling.Proper` — spellings in good order.
* `scanNumber_chars` — a proper spelling is scanned from its text.
* `Spelling.ofInt` and `tree_ofInt` — integers are read back.
* `Spelling.ofFloat` and `chars_ofFloat` — the spelling of a finite float, which has a point or an
  exponent.
* `Spelling.isFinite_of_float?` — no number is read as a float that is not finite.
-/

/-! ### Runs of digits -/

/-- No character that belongs to a number comes next. -/
def EndsNumber (rest : List Char) : Prop :=
  ∀ c ∈ rest.head?, c.isDigit = false ∧ c ≠ '.' ∧ c ≠ 'e' ∧ c ≠ 'E'

/-- A run of digits. -/
structure DigitRun (ds : List Char) : Prop where
  ne_nil : ds ≠ []
  isDigit : ∀ c ∈ ds, c.isDigit = true

/-- A run of digits ends where no digit comes next. -/
theorem spanDigits_append {ds rest : List Char} (hds : ∀ c ∈ ds, c.isDigit = true)
    (hrest : ∀ c ∈ rest.head?, c.isDigit = false) : spanDigits (ds ++ rest) = (ds, rest) := by
  unfold spanDigits
  rw [List.takeWhile_append_of_pos hds, List.dropWhile_append_of_pos hds]
  cases rest with
  | nil => simp
  | cons c rest =>
    have hc := hrest c rfl
    simp [hc]

/-- The single zero that stands before a point or behind it. -/
theorem digitRun_zero : DigitRun ['0'] := by
  refine ⟨List.cons_ne_nil _ _, fun c hc => ?_⟩
  rw [List.mem_singleton.mp hc]
  decide

/-- Zeros are digits. -/
theorem isDigit_replicate (n : ℕ) : ∀ c ∈ List.replicate n '0', c.isDigit = true := by
  intro c hc
  rw [List.eq_of_mem_replicate hc]
  decide

/-- Zeros behind a run of digits make a run of digits. -/
theorem DigitRun.append_zeros {ds : List Char} (h : DigitRun ds) (n : ℕ) :
    DigitRun (ds ++ List.replicate n '0') :=
  ⟨by simp [h.ne_nil], fun c hc =>
    (List.mem_append.mp hc).elim (h.isDigit c) (isDigit_replicate n c)⟩

/-- So do zeros before it. -/
theorem DigitRun.zeros_append {ds : List Char} (h : DigitRun ds) (n : ℕ) :
    DigitRun (List.replicate n '0' ++ ds) :=
  ⟨by simp [h.ne_nil], fun c hc =>
    (List.mem_append.mp hc).elim (isDigit_replicate n c) (h.isDigit c)⟩

/-- The beginning of a run of digits is one. -/
theorem DigitRun.take {ds : List Char} (h : DigitRun ds) {n : ℕ} (hn : 0 < n) :
    DigitRun (ds.take n) :=
  ⟨by simp [h.ne_nil, hn.ne'], fun c hc => h.isDigit c (List.mem_of_mem_take hc)⟩

/-- So is the end. -/
theorem DigitRun.drop {ds : List Char} (h : DigitRun ds) {n : ℕ} (hn : n < ds.length) :
    DigitRun (ds.drop n) :=
  ⟨by simpa using hn, fun c hc => h.isDigit c (List.mem_of_mem_drop hc)⟩

/-- What holds of the only element of an option. -/
theorem forall_mem_some {α : Type} {p : α → Prop} {a : α} (h : p a) : ∀ b ∈ some a, p b := by
  intro b hb
  exact Option.mem_some_iff.mp hb ▸ h

/-- A natural number is written in digits. -/
theorem digitRun_toDigits (n : ℕ) : DigitRun (Nat.toDigits 10 n) :=
  ⟨Nat.toDigits_ne_nil, fun _ hc => Nat.isDigit_of_mem_toDigits (by decide) (by decide) hc⟩

/-- One more digit. -/
theorem digitsValue_append (ds : List Char) (d : Char) :
    digitsValue (ds ++ [d]) = digitsValue ds * 10 + Decimal.digitValue d := by
  unfold digitsValue
  rw [List.foldl_append]
  rfl

/-- A digit has the value that it stands for. -/
theorem digitValue_digitChar {n : ℕ} (hn : n < 10) : Decimal.digitValue n.digitChar = n :=
  Nat.toNat_digitChar_sub_48_of_lt_ten hn

/-- The digits of a number have its value. -/
theorem digitsValue_toDigits (n : ℕ) : digitsValue (Nat.toDigits 10 n) = n := by
  induction n using Nat.strongRecOn with
  | ind n ih =>
    rw [Nat.toDigits_eq_if (by decide)]
    split
    · rename_i hn
      show 0 * 10 + Decimal.digitValue n.digitChar = n
      rw [digitValue_digitChar hn, Nat.zero_mul, Nat.zero_add]
    · rename_i hn
      rw [digitsValue_append, ih (n / 10) (by omega),
        digitValue_digitChar (Nat.mod_lt _ (by decide))]
      omega

/-- The digits of a number other than zero do not begin with a zero. -/
theorem head?_toDigits {n : ℕ} (hn : 0 < n) : (Nat.toDigits 10 n).head? ≠ some '0' := by
  induction n using Nat.strongRecOn with
  | ind n ih =>
    rw [Nat.toDigits_eq_if (by decide)]
    split
    · intro h
      have hzero := Nat.digitChar_eq_zero.mp (Option.some.inj h)
      omega
    · rename_i hlarge
      have hhead := ih (n / 10) (by omega) (by omega)
      rw [List.head?_append_of_ne_nil _ Nat.toDigits_ne_nil]
      exact hhead

namespace Spelling

/-! ### Texts of spellings -/

/-- The text of a point with the digits after it. -/
def fractionChars : Option (List Char) → List Char
  | none => []
  | some ds => '.' :: ds

/-- The text of an exponent, which always has a sign. -/
def exponentChars : Option (Bool × List Char) → List Char
  | none => []
  | some (negative, ds) => 'e' :: (if negative then '-' else '+') :: ds

/-- The text of a spelling. -/
def chars (s : Spelling) : List Char :=
  (if s.negative then ['-'] else []) ++ s.whole ++ fractionChars s.fraction
    ++ exponentChars s.exponent

/-- A spelling in good order: there are digits wherever there must be some, and no zero before
    other digits. -/
structure Proper (s : Spelling) : Prop where
  whole : DigitRun s.whole
  noZero : s.whole.head? = some '0' → s.whole.length = 1
  fraction : ∀ ds ∈ s.fraction, DigitRun ds
  exponent : ∀ e ∈ s.exponent, DigitRun e.2

end Spelling

variable {s : Spelling} {rest : List Char}

/-- An exponent is scanned up to where the number ends. -/
theorem scanExponent_chars {exponent : Option (Bool × List Char)}
    (h : ∀ e ∈ exponent, DigitRun e.2) (hrest : EndsNumber rest) :
    scanExponent (Spelling.exponentChars exponent ++ rest) = .found exponent rest := by
  cases exponent with
  | none =>
    cases rest with
    | nil => rfl
    | cons c rest =>
      -- Without an exponent, what follows must not look like one.
      obtain ⟨-, -, he, hE⟩ := hrest c rfl
      show scanExponent (c :: rest) = _
      unfold scanExponent
      simp [he, hE]
  | some e =>
    obtain ⟨negative, ds⟩ := e
    have hds := h _ rfl
    have hspan := spanDigits_append hds.isDigit fun c hc => (hrest c hc).1
    cases negative with
    | true =>
      show scanExponent ('e' :: '-' :: (ds ++ rest)) = _
      simp [scanExponent, hspan, hds.ne_nil]
    | false =>
      show scanExponent ('e' :: '+' :: (ds ++ rest)) = _
      simp [scanExponent, hspan, hds.ne_nil]

/-- An exponent and what follows a number do not begin with a digit. -/
theorem head?_exponentChars {exponent : Option (Bool × List Char)} (hrest : EndsNumber rest)
    {c : Char}
    (hc : c ∈ (Spelling.exponentChars exponent ++ rest).head?) : c.isDigit = false ∧ c ≠ '.' := by
  cases exponent with
  | none => exact ⟨(hrest c hc).1, (hrest c hc).2.1⟩
  | some e =>
    obtain rfl := Option.some.inj hc
    decide

/-- A fraction is scanned up to what is no digit. -/
theorem scanFraction_chars {fraction : Option (List Char)} (h : ∀ ds ∈ fraction, DigitRun ds)
    (hrest : ∀ c ∈ rest.head?, c.isDigit = false ∧ c ≠ '.') :
    scanFraction (Spelling.fractionChars fraction ++ rest) = .found fraction rest := by
  cases fraction with
  | none =>
    show scanFraction rest = _
    unfold scanFraction
    split
    · exact absurd rfl (hrest '.' rfl).2
    · rfl
  | some ds =>
    have hds := h _ rfl
    have hspan := spanDigits_append hds.isDigit fun c hc => (hrest c hc).1
    show scanFraction ('.' :: (ds ++ rest)) = _
    simp [scanFraction, hspan, hds.ne_nil]

/-- No digit follows the part before the point, whether there is a fraction or not. -/
theorem head?_fractionChars {fraction : Option (List Char)}
    (hrest : ∀ c ∈ rest.head?, c.isDigit = false) {c : Char}
    (hc : c ∈ (Spelling.fractionChars fraction ++ rest).head?) : c.isDigit = false := by
  cases fraction with
  | none => exact hrest c hc
  | some ds =>
    obtain rfl := Option.some.inj hc
    decide

/-- Scans what follows the sign of a number. -/
def scanSize (negative : Bool) (cs : List Char) : Scan Spelling :=
  match spanDigits cs with
  | ([], rest) => .broken (missingDigit rest)
  | ('0' :: _ :: _, _) => .broken .malformed
  | (whole, rest) => match scanFraction rest with
    | .broken report => .broken report
    | .found fraction rest => match scanExponent rest with
      | .broken report => .broken report
      | .found exponent rest => .found ⟨negative, whole, fraction, exponent⟩ rest

/-- A number may begin with a minus. -/
theorem scanNumber_negative (cs : List Char) : scanNumber ('-' :: cs) = scanSize true cs := rfl

/-- Otherwise it begins with a digit. -/
theorem scanNumber_positive {c : Char} (hc : c ≠ '-') (cs : List Char) :
    scanNumber (c :: cs) = scanSize false (c :: cs) := by
  unfold scanNumber
  split
  rename_i negative rest hsign
  -- There is no sign.
  split at hsign
  · rename_i h
    exact absurd (List.cons.inj h).1 hc
  · obtain ⟨rfl, rfl⟩ := Prod.mk.inj hsign
    rfl

/-- **A proper spelling is scanned from its text**, whatever may follow a number. -/
theorem scanNumber_chars (hs : s.Proper) (hrest : EndsNumber rest) :
    scanNumber (s.chars ++ rest) = .found s rest := by
  obtain ⟨negative, whole, fraction, exponent⟩ := s
  obtain ⟨hwhole, hzero, hfraction, hexponent⟩ := hs
  dsimp only at hwhole hzero hfraction hexponent
  -- The digits of each part end where the next part begins: with a point, with an `e`, or where the
  -- number ends.
  have hafter : ∀ c ∈ (Spelling.exponentChars exponent ++ rest).head?,
      c.isDigit = false ∧ c ≠ '.' := fun c hc => head?_exponentChars hrest hc
  have hfree : ∀ c ∈ (Spelling.fractionChars fraction
      ++ (Spelling.exponentChars exponent ++ rest)).head?, c.isDigit = false :=
    fun c hc => head?_fractionChars (fun c hc => (hafter c hc).1) hc
  have hspan := spanDigits_append hwhole.isDigit hfree
  have hfound := scanFraction_chars hfraction hafter
  have hfound' := scanExponent_chars hexponent hrest
  obtain ⟨d, ds, rfl⟩ := List.exists_cons_of_ne_nil hwhole.ne_nil
  have hsize : ∀ negative, scanSize negative (d :: ds ++ (Spelling.fractionChars fraction
      ++ (Spelling.exponentChars exponent ++ rest)))
      = .found ⟨negative, d :: ds, fraction, exponent⟩ rest := by
    intro negative
    unfold scanSize
    rw [hspan]
    cases ds with
    | nil => simp [hfound, hfound']
    | cons d' ds =>
      -- A zero at the front stands alone.
      have hne : d ≠ '0' := by
        rintro rfl
        exact absurd (hzero rfl) (by simp)
      simp [hfound, hfound', hne]
  have hd : d ≠ '-' := by
    rintro rfl
    exact absurd (hwhole.isDigit '-' List.mem_cons_self) (by decide)
  unfold Spelling.chars
  dsimp only
  rw [List.append_assoc, List.append_assoc, List.append_assoc]
  cases negative with
  | true => exact (scanNumber_negative _).trans (hsize true)
  | false => exact (scanNumber_positive hd _).trans (hsize false)

/-! ### Integers -/

/-- A number only begins with a zero if it is zero. This is what makes its spelling proper. -/
theorem noZero_toDigits (n : ℕ) :
    (Nat.toDigits 10 n).head? = some '0' → (Nat.toDigits 10 n).length = 1 := by
  rcases Nat.eq_zero_or_pos n with rfl | hpos
  · intro _
    rfl
  · intro h
    exact absurd h (head?_toDigits hpos)

namespace Spelling

/-- How an integer is spelled. -/
def ofInt (n : ℤ) : Spelling := ⟨n < 0, Nat.toDigits 10 n.natAbs, none, none⟩

/-- An integer is spelled as it is written. -/
theorem chars_ofInt (n : ℤ) : (ofInt n).chars = (toString n).toList := by
  have hchars : (ofInt n).chars
      = (if decide (n < 0) = true then ['-'] else []) ++ Nat.toDigits 10 n.natAbs := by
    show _ ++ Nat.toDigits 10 n.natAbs ++ [] ++ [] = _
    rw [List.append_nil, List.append_nil]
    rfl
  rw [hchars, Int.toString_eq_repr, Int.repr_eq_if]
  by_cases hn : n < 0
  · rw [if_pos (decide_eq_true hn), if_neg (by omega), String.toList_append, Nat.toList_repr,
      show n.natAbs = (-n).toNat by omega]
    rfl
  · rw [if_neg (by simpa using hn), if_pos (by omega), Nat.toList_repr,
      show n.natAbs = n.toNat by omega]
    rfl

/-- The spelling of an integer is proper. -/
theorem proper_ofInt (n : ℤ) : (ofInt n).Proper :=
  ⟨digitRun_toDigits _, noZero_toDigits _, nofun, nofun⟩

/-- An integer of sixty-four bits is read back as an integer. -/
theorem tree_ofInt {n : ℤ} (hn : isWord n = true) : (ofInt n).tree = .int n := by
  have hvalue : (if (ofInt n).negative then -(digitsValue (ofInt n).whole : ℤ)
      else digitsValue (ofInt n).whole) = n := by
    unfold ofInt
    dsimp only
    rw [digitsValue_toDigits]
    split
    · rename_i h
      have hneg := of_decide_eq_true h
      omega
    · rename_i h
      have hneg := of_decide_eq_false (Bool.not_eq_true _ ▸ h)
      omega
  -- Zero is written without a sign.
  have hzero : ((ofInt n).negative && n == 0) = false := by
    unfold ofInt
    dsimp only
    rw [Bool.and_eq_false_iff]
    by_cases h : n = 0
    · exact .inl (decide_eq_false (by omega))
    · exact .inr (beq_false_of_ne h)
  unfold tree
  dsimp only
  rw [hvalue, hn, hzero]
  rfl

/-! ### Floats -/

/-- How documents spell a decimal: zero and an integral number keep a digit after the point, and
    exponents stand for long runs of zeros. -/
def ofDecimal (negative : Bool) (d : Decimal) : Spelling :=
  let ds := d.digits
  let p := ds.length + d.exponent
  if d.coefficient = 0 then ⟨negative, ['0'], some ['0'], none⟩
  else if -5 ≤ p - 1 ∧ p - 1 < 16 then
    if p ≤ 0 then ⟨negative, ['0'], some (List.replicate p.natAbs '0' ++ ds), none⟩
    else if ds.length ≤ p.toNat then
      ⟨negative, ds ++ List.replicate (p.toNat - ds.length) '0', some ['0'], none⟩
    else ⟨negative, ds.take p.toNat, some (ds.drop p.toNat), none⟩
  else ⟨negative, ds.take 1, if ds.length ≤ 1 then none else some (ds.drop 1),
    some (p - 1 < 0, Nat.toDigits 10 (p - 1).natAbs)⟩

/-- How documents spell a finite float. -/
def ofFloat (x : Float) : Spelling :=
  ofDecimal (Decimal.isNegative x) (Decimal.shortest .toEven x.abs)

/-- Characters that are pushed stand at the end. -/
theorem toList_pushn (s : String) (c : Char) (n : ℕ) :
    (s.pushn c n).toList = s.toList ++ List.replicate n c := by
  rw [String.pushn_eq_repeat_push]
  induction n with
  | zero => simp [Nat.repeat]
  | succ n ih => simp [Nat.repeat, ih, List.replicate_succ']

/-- A decimal with its point among the digits, before or behind all of them. -/
theorem toList_point (ds : List Char) (p : ℤ) : (Decimal.Layout.point ".0" ds p).toList
    = if p ≤ 0 then ['0', '.'] ++ List.replicate p.natAbs '0' ++ ds
      else if ds.length ≤ p.toNat then ds ++ List.replicate (p.toNat - ds.length) '0' ++ ['.', '0']
      else ds.take p.toNat ++ '.' :: ds.drop p.toNat := by
  unfold Decimal.Layout.point
  split
  · simp [toList_pushn]
  split
  · simp [toList_pushn]
  · simp

/-- A decimal with an exponent, which has a point only if there is more than one digit. -/
theorem toList_scientific (ds : List Char) (e : ℤ) : (Decimal.Layout.scientific ds e).toList
    = ds.take 1 ++ (if ds.length ≤ 1 then [] else '.' :: ds.drop 1)
      ++ 'e' :: (if e < 0 then '-' else '+') :: Nat.toDigits 10 e.natAbs := by
  have hdigits : (toString e.natAbs).toList = Nat.toDigits 10 e.natAbs := Nat.toList_repr
  unfold Decimal.Layout.scientific
  rw [String.toList_append, String.toList_append, String.toList_append, hdigits]
  split <;> split <;> simp

/-- What documents write for a decimal is the text of its spelling. -/
theorem chars_ofDecimal (negative : Bool) (d : Decimal) : (ofDecimal negative d).chars
    = (if negative then ['-'] else []) ++ (Decimal.Layout.document.writeDecimal d).toList := by
  have hpositional : ∀ e : ℤ, Decimal.Layout.document.positional e = decide (-5 ≤ e ∧ e < 16) := by
    intro e
    show (decide (-5 ≤ e) && decide (e < 16)) = _
    rw [Bool.decide_and]
  unfold ofDecimal Decimal.Layout.writeDecimal
  dsimp only
  split
  · simp [chars, fractionChars, exponentChars, Decimal.Layout.document]
  rw [hpositional]
  -- Between the two limits the point is placed among the digits, beyond them there is an exponent.
  by_cases hplace : -5 ≤ d.digits.length + d.exponent - 1 ∧ d.digits.length + d.exponent - 1 < 16
  · rw [if_pos hplace, if_pos (decide_eq_true hplace)]
    show _ = _ ++ (Decimal.Layout.point ".0" d.digits _).toList
    rw [toList_point]
    split
    · simp [chars, fractionChars, exponentChars]
    split <;> simp [chars, fractionChars, exponentChars]
  · rw [if_neg hplace, decide_eq_false hplace]
    show _ = _ ++ (Decimal.Layout.scientific d.digits _).toList
    rw [toList_scientific]
    split <;> simp [chars, fractionChars, exponentChars]

/-- The text of a float is that of its spelling. -/
theorem chars_ofFloat (x : Float) :
    (ofFloat x).chars = (Decimal.Layout.document.write x).toList := by
  unfold ofFloat Decimal.Layout.write
  rw [chars_ofDecimal, String.toList_append]
  split <;> rfl

/-- The spelling of a decimal is proper in every layout. -/
theorem proper_ofDecimal (negative : Bool) (d : Decimal) : (ofDecimal negative d).Proper := by
  have hrun : DigitRun d.digits := digitRun_toDigits _
  unfold ofDecimal
  dsimp only
  by_cases hzero : d.coefficient = 0
  · rw [if_pos hzero]
    exact ⟨digitRun_zero, fun _ => rfl, forall_mem_some digitRun_zero, nofun⟩
  have hhead : d.digits.head? ≠ some '0' := head?_toDigits (Nat.pos_of_ne_zero hzero)
  -- The digits begin with no zero, so that none stands at the front of a part that is cut off.
  have htake : ∀ n, 0 < n → (d.digits.take n).head? ≠ some '0' := by
    intro n hn
    rwa [List.head?_take, if_neg hn.ne']
  rw [if_neg hzero]
  split
  · split
    · exact ⟨digitRun_zero, fun _ => rfl, forall_mem_some (hrun.zeros_append _), nofun⟩
    split
    · refine ⟨hrun.append_zeros _, fun h => ?_, forall_mem_some digitRun_zero, nofun⟩
      rw [List.head?_append_of_ne_nil _ hrun.ne_nil] at h
      exact absurd h hhead
    · exact ⟨hrun.take (by omega), fun h => absurd h (htake _ (by omega)),
        forall_mem_some (hrun.drop (by omega)), nofun⟩
  · refine ⟨hrun.take (by decide), fun h => absurd h (htake 1 (by decide)), ?_,
      forall_mem_some (digitRun_toDigits _)⟩
    split
    · exact nofun
    · exact forall_mem_some (hrun.drop (by omega))

/-- A float is never spelled like an integer. -/
theorem isSome_ofDecimal (negative : Bool) (d : Decimal) :
    (ofDecimal negative d).fraction.isSome ∨ (ofDecimal negative d).exponent.isSome := by
  unfold ofDecimal
  dsimp only
  split
  · exact .inl rfl
  split
  · split
    · exact .inl rfl
    split <;> exact .inl rfl
  · exact .inr rfl

/-- So is that of a float. -/
theorem proper_ofFloat (x : Float) : (ofFloat x).Proper := proper_ofDecimal _ _

/-- What is written for a float is read as a float or as nothing. -/
theorem tree_ofFloat (x : Float) : (ofFloat x).tree
    = match (ofFloat x).float? with
      | some y => .float y
      | none => .unusable := by
  have hpoint : ((ofFloat x).fraction.isNone && (ofFloat x).exponent.isNone) = false := by
    rw [Bool.and_eq_false_iff]
    exact (isSome_ofDecimal _ _).imp Option.isNone_eq_false_iff.mpr Option.isNone_eq_false_iff.mpr
  unfold tree
  rw [hpoint]
  rfl

/-- What is read is a float if its spelling stands for one. -/
theorem tree_ofFloat_eq_iff {x y : Float} :
    (ofFloat x).tree = .float y ↔ (ofFloat x).float? = some y := by
  rw [tree_ofFloat]
  cases (ofFloat x).float? with
  | none => exact iff_of_false Tree.noConfusion nofun
  | some z => exact ⟨fun h => congrArg some (Tree.float.inj h), fun h => by rw [Option.some.inj h]⟩

/-! ### Any number -/

/-- No number is read as a float that is not finite. -/
theorem isFinite_of_float? {x : Float} (h : s.float? = some x) : x.isFinite = true := by
  unfold float? at h
  obtain ⟨size, hsize, rfl⟩ := Option.map_eq_some_iff.mp h
  have hcoefficient : s.decimal.coefficient < Decimal.wordCount :=
    Decimal.coefficient_ofDigits_lt _ _
  have hfinite := FloatFinite.isFinite_of_stepwise? hcoefficient hsize
  split
  · exact FloatFinite.isFinite_neg hfinite
  · exact hfinite

/-- A proper spelling begins with a sign or a digit. -/
theorem Proper.head_chars (hs : s.Proper) :
    ∃ c cs, s.chars = c :: cs ∧ (c = '-' ∨ c.isDigit = true) := by
  obtain ⟨negative, whole, fraction, exponent⟩ := s
  obtain ⟨d, ds, rfl⟩ := List.exists_cons_of_ne_nil hs.whole.ne_nil
  cases negative with
  | true => exact ⟨'-', _, rfl, .inl rfl⟩
  | false => exact ⟨d, _, rfl, .inr (hs.whole.isDigit d List.mem_cons_self)⟩

end Spelling

end MeshExpr.Json
