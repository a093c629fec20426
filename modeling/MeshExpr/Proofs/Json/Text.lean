import MeshExpr.Proofs.Json.Spelling

namespace MeshExpr.Json

/-!
# Values are scanned as they are written

The text of a value is scanned as that value, with two reservations. A float that is not finite is
written as `null`, and that is what comes back. And a finite float comes back only if its text is
read as that very float, which is not so for all of them, since floats are not read to the nearest
one; `ReadsBack` is that property of a float.

* `numbers` lists the numbers of a value, `written` has `null` in the place of each float that is
  not finite.
* `Legible` — all numbers of a value can be read back.
* `scanValue_chars` — **a legible value is scanned from its text**, whatever may follow it.
* `ofText_render` — hence a reader of the text sees the value and nothing after it.
-/

variable {rest : List Char}

/-! ### Strings -/

/-- An escape of one letter. -/
theorem scanPieces_letter {letter c : Char} (hletter : letter ≠ 'u') (h : unescape? letter = some c)
    (d : Char) (ds : List Char) : scanPieces ('\\' :: letter :: d :: ds)
      = (.char c :: (scanPieces (d :: ds)).1, (scanPieces (d :: ds)).2) := by
  simp [scanPieces, hletter, h]

/-- An escape of four digits, for the characters that have no letter. These are finitely many. -/
theorem scanPieces_control : ∀ n < 32,
    hexUnit? '0' '0' (hexDigit (n / 16)) (hexDigit (n % 16)) = some n
      ∧ Piece.ofUnit n = .char (Char.ofNat n) := by decide

/-- What stands for a character is scanned as that character. -/
theorem scanPieces_escape (c d : Char) (ds : List Char) : scanPieces (escape c ++ d :: ds)
    = (.char c :: (scanPieces (d :: ds)).1, (scanPieces (d :: ds)).2) := by
  unfold escape
  -- Seven characters are escaped by a letter.
  iterate 7
    split
    · rename_i h
      subst h
      exact scanPieces_letter (by decide) rfl d ds
  split
  · rename_i h
    obtain ⟨hunit, hpiece⟩ := scanPieces_control c.toNat h
    simp [scanPieces, hunit, hpiece]
  · rename_i hbackslash _ _ _ _ _ hplain
    simp [scanPieces, hbackslash, hplain]

/-- **Characters that were escaped are scanned as they were**, up to the quote. -/
theorem scanPieces_flatMap (cs : List Char) : scanPieces (cs.flatMap escape ++ '"' :: rest)
    = (cs.map .char, .ok rest) := by
  induction cs with
  | nil => rfl
  | cons c cs ih =>
    obtain ⟨d, ds, hd⟩ : ∃ d ds, cs.flatMap escape ++ '"' :: rest = d :: ds :=
      List.exists_cons_of_ne_nil (by simp)
    rw [List.flatMap_cons, List.append_assoc, hd, scanPieces_escape, ← hd, ih]
    rfl

/-- Pieces that are characters make the string again. -/
theorem joinPieces_map (cs : List Char) : joinPieces (cs.map .char) = some cs := by
  induction cs with
  | nil => rfl
  | cons c cs ih =>
    show (joinPieces (cs.map .char)).map (c :: ·) = _
    rw [ih]
    rfl

/-- A string is scanned from what stands after its opening quote. -/
theorem scanQuoted_flatMap (s : String) :
    scanQuoted (s.toList.flatMap escape ++ '"' :: rest) = .found (some s.toList) rest := by
  unfold scanQuoted
  rw [scanPieces_flatMap]
  dsimp only
  rw [joinPieces_map]

/-! ### Numbers in values -/

mutual
/-- The numbers in a value. -/
def numbers : Json → List Json
  | .null | .bool _ | .string _ => []
  | .int n => [.int n]
  | .float x => [.float x]
  | .list items => itemNumbers items
  | .object fields => fieldNumbers fields

/-- The numbers in the items of a list. -/
def itemNumbers : List Json → List Json
  | [] => []
  | item :: rest => numbers item ++ itemNumbers rest

/-- The numbers in the fields of an object. -/
def fieldNumbers : List (String × Json) → List Json
  | [] => []
  | (_, value) :: rest => numbers value ++ fieldNumbers rest
end

mutual
/-- The value as it is written, with `null` in the place of floats that are not finite. -/
def written : Json → Json
  | .null => .null
  | .bool b => .bool b
  | .int n => .int n
  | .float x => if x.isFinite then .float x else .null
  | .string s => .string s
  | .list items => .list (writtenItems items)
  | .object fields => .object (writtenFields fields)

/-- The items of a list as they are written. -/
def writtenItems : List Json → List Json
  | [] => []
  | item :: rest => written item :: writtenItems rest

/-- The fields of an object as they are written. -/
def writtenFields : List (String × Json) → List (String × Json)
  | [] => []
  | (name, value) :: rest => (name, written value) :: writtenFields rest
end

/-- The text of a float is read as that float. -/
def ReadsBack (x : Float) : Prop := ofText (render (.float x)) = .ok (.float x)

/-- Each of the floats is read back if it is finite. -/
def AllReadBack (xs : List Float) : Prop := ∀ x ∈ xs, x.isFinite = true → ReadsBack x

/-- All numbers can be read back: integers have sixty-four bits, and finite floats are read back. -/
structure Legible (numbers : List Json) : Prop where
  word : ∀ n, .int n ∈ numbers → isWord n = true
  readsBack : ∀ x : Float, .float x ∈ numbers → x.isFinite = true → ReadsBack x

/-- Both parts of legible numbers are legible. -/
theorem Legible.append {l l' : List Json} (h : Legible (l ++ l')) : Legible l ∧ Legible l' :=
  ⟨⟨fun n hn => h.word n (List.mem_append_left _ hn),
    fun x hx => h.readsBack x (List.mem_append_left _ hx)⟩,
    ⟨fun n hn => h.word n (List.mem_append_right _ hn),
      fun x hx => h.readsBack x (List.mem_append_right _ hx)⟩⟩

/-- Without numbers there is nothing to be read. -/
theorem legible_nil : Legible [] := ⟨nofun, nofun⟩

/-- Integers of sixty-four bits are legible. -/
theorem legible_int {n : Int} (h : isWord n = true) : Legible [.int n] :=
  ⟨fun m hm => by
    obtain rfl := Json.int.inj (List.mem_singleton.mp hm)
    exact h, nofun⟩

/-- Finite floats are legible if they are read back. -/
theorem legible_float {x : Float} (h : x.isFinite = true → ReadsBack x) : Legible [.float x] :=
  ⟨nofun, fun y hy => by
    obtain rfl := Json.float.inj (List.mem_singleton.mp hy)
    exact h⟩

/-- Numbers that are legible part by part. -/
theorem legible_flatMap {α : Type} {f : α → List Json} {l : List α} (h : ∀ a ∈ l, Legible (f a)) :
    Legible (l.flatMap f) := by
  refine ⟨fun n hn => ?_, fun x hx => ?_⟩
  · obtain ⟨a, ha, hn⟩ := List.mem_flatMap.mp hn
    exact (h a ha).word n hn
  · obtain ⟨a, ha, hx⟩ := List.mem_flatMap.mp hx
    exact (h a ha).readsBack x hx

/-- The numbers of a list are those of its items. -/
theorem itemNumbers_eq (items : List Json) : itemNumbers items = items.flatMap numbers := by
  induction items with
  | nil => rfl
  | cons item rest ih => exact congrArg (numbers item ++ ·) ih

/-- The numbers of an object are those of its fields. -/
theorem fieldNumbers_eq (fields : List (String × Json)) :
    fieldNumbers fields = fields.flatMap fun field => numbers field.2 := by
  induction fields with
  | nil => rfl
  | cons field rest ih => exact congrArg (numbers field.2 ++ ·) ih

/-- A list of legible items is legible. -/
theorem legible_list {items : List Json} (h : ∀ item ∈ items, Legible item.numbers) :
    Legible (numbers (.list items)) := by
  show Legible (itemNumbers items)
  rw [itemNumbers_eq]
  exact legible_flatMap h

/-- An object with legible fields is legible. -/
theorem legible_object {fields : List (String × Json)}
    (h : ∀ field ∈ fields, Legible field.2.numbers) : Legible (numbers (.object fields)) := by
  show Legible (fieldNumbers fields)
  rw [fieldNumbers_eq]
  exact legible_flatMap h

/-! ### First characters -/

/-- Nothing is skipped before a character that is no space. -/
theorem skipSpace_cons {c : Char} (hc : isSpace c = false) (cs : List Char) :
    skipSpace (c :: cs) = c :: cs := by
  unfold skipSpace
  rw [List.dropWhile_cons_of_neg (by rw [hc]; decide)]

/-- A number begins with none of the other characters that mean something. -/
theorem ne_of_number {c d : Char} (hc : c = '-' ∨ c.isDigit = true) (hd : d ≠ '-')
    (hd' : d.isDigit = false) : c ≠ d := by
  rintro rfl
  rcases hc with rfl | hc
  · exact hd rfl
  · rw [hc] at hd'
    cases hd'

/-- A number begins with no space. -/
theorem isSpace_of_number {c : Char} (hc : c = '-' ∨ c.isDigit = true) : isSpace c = false := by
  have hspace := ne_of_number (d := ' ') hc (by decide) (by decide)
  have htab := ne_of_number (d := '\t') hc (by decide) (by decide)
  have hline := ne_of_number (d := '\n') hc (by decide) (by decide)
  have hreturn := ne_of_number (d := '\r') hc (by decide) (by decide)
  unfold isSpace
  simp [hspace, htab, hline, hreturn]

/-- A number is scanned wherever a value can stand. -/
theorem scanValue_number {s : Spelling} (hs : s.Proper) (hrest : EndsNumber rest) (fuel : ℕ) :
    scanValue (fuel + 1) (s.chars ++ rest) = (s.tree, rest) := by
  have hfound := scanNumber_chars hs hrest
  obtain ⟨c, cs, hcs, hc⟩ := hs.head_chars
  rw [hcs, List.cons_append] at hfound ⊢
  unfold scanValue
  rw [skipSpace_cons (isSpace_of_number hc)]
  split
  · rename_i h
    cases h
  -- Six characters stand for something else.
  iterate 6
    · rename_i h
      exact absurd (List.cons.inj h).1 (ne_of_number hc (by decide) (by decide))
  · rename_i h
    obtain ⟨rfl, rfl⟩ := List.cons.inj h
    rw [if_pos (by simpa using hc), hfound]

/-! ### Values -/

/-- Every value begins with a character that is no blank and does not close a list. -/
theorem head_chars (j : Json) :
    ∃ c cs, chars j = c :: cs ∧ isSpace c = false ∧ c ≠ ']' := by
  have hspelled : ∀ s : Spelling, s.Proper →
      ∃ c cs, s.chars = c :: cs ∧ isSpace c = false ∧ c ≠ ']' := by
    intro s hs
    obtain ⟨c, cs, hcs, hc⟩ := hs.head_chars
    exact ⟨c, cs, hcs, isSpace_of_number hc, ne_of_number hc (by decide) (by decide)⟩
  cases j with
  | null => exact ⟨'n', _, rfl, by decide, by decide⟩
  | bool b => cases b with
    | true => exact ⟨'t', _, rfl, by decide, by decide⟩
    | false => exact ⟨'f', _, rfl, by decide, by decide⟩
  | int n =>
    show ∃ c cs, (toString n).toList = _ ∧ _
    rw [← Spelling.chars_ofInt]
    exact hspelled _ (Spelling.proper_ofInt n)
  | float x =>
    show ∃ c cs, writeFloat x = _ ∧ _
    unfold writeFloat
    split
    · rw [← Spelling.chars_ofFloat]
      exact hspelled _ (Spelling.proper_ofFloat x)
    · exact ⟨'n', _, rfl, by decide, by decide⟩
  | string s => exact ⟨'"', _, rfl, by decide, by decide⟩
  | list items => exact ⟨'[', _, rfl, by decide, by decide⟩
  | object fields => exact ⟨'\x7b', _, rfl, by decide, by decide⟩

/-- Nothing of a number follows where a value ends. -/
theorem endsNumber_cons {c : Char} (hc : c = ',' ∨ c = ']' ∨ c = '\x7d') (cs : List Char) :
    EndsNumber (c :: cs) := by
  intro d hd
  obtain rfl := Option.some.inj hd
  rcases hc with rfl | rfl | rfl <;> decide

/-- A number ends at the end of the text. -/
theorem endsNumber_nil : EndsNumber [] := nofun

/-- A finite float is read back if the digits that are written for it are read as that float. -/
theorem readsBack_iff {x : Float} (hx : x.isFinite = true) :
    ReadsBack x ↔ (Spelling.ofFloat x).float? = some x := by
  have hchars : (render (.float x)).toList = (Spelling.ofFloat x).chars ++ [] := by
    show (String.ofList (writeFloat x)).toList = _
    rw [String.toList_ofList, List.append_nil, Spelling.chars_ofFloat]
    unfold writeFloat
    rw [if_pos hx]
  -- The text is the spelling and nothing behind it.
  have hscan : Document.ofText (render (.float x)) = ⟨(Spelling.ofFloat x).tree, []⟩ := by
    unfold Document.ofText
    dsimp only
    rw [hchars, scanValue_number (Spelling.proper_ofFloat x) endsNumber_nil]
  unfold ReadsBack ofText
  rw [hscan, Spelling.tree_ofFloat]
  cases (Spelling.ofFloat x).float? with
  | none => exact iff_of_false nofun nofun
  | some y =>
    show Except.ok (Json.float y) = Except.ok (Json.float x) ↔ _
    constructor
    · intro h
      rw [Json.float.inj (Except.ok.inj h)]
    · intro h
      rw [Option.some.inj h]

instance (xs : List Float) : Decidable (AllReadBack xs) :=
  decidable_of_iff (∀ x ∈ xs, x.isFinite = true → (Spelling.ofFloat x).float? = some x)
    (forall₃_congr fun _ _ hx => (readsBack_iff hx).symm)

/-- This float is written as `1e-23`, and that is read as the next larger one. -/
example : ¬ AllReadBack [Float.ofBits 0x3b282db34012b251] := by decide +kernel

/-! ### Steps of the scanner -/

variable {fuel : ℕ} {cs cs' : List Char} {item value : Tree} {items : List Tree}
  {fields : List (Option String × Tree)} {name : List Char}

/-- No token but a number begins with a blank. -/
theorem skipSpace_token {c : Char}
    (hc : c ∈ ['"', '[', ']', '\x7b', '\x7d', ',', ':', 'n', 't', 'f']) (cs : List Char) :
    skipSpace (c :: cs) = c :: cs := by
  have htokens : (['"', '[', ']', '\x7b', '\x7d', ',', ':', 'n', 't', 'f'].all
      fun c => !isSpace c) = true := by decide
  have hspace := List.all_eq_true.mp htokens c hc
  exact skipSpace_cons (Bool.not_eq_true' _ ▸ hspace) cs

/-- The word for nothing. -/
theorem scanValue_null :
    scanValue (fuel + 1) ('n' :: 'u' :: 'l' :: 'l' :: rest) = (.null, rest) := by
  simp [scanValue, skipSpace_token, scanWord]

/-- A string in quotes, and what comes next. -/
theorem quote_append (s : String) (cs : List Char) :
    quote s ++ cs = '"' :: (s.toList.flatMap escape ++ '"' :: cs) := by
  unfold quote
  simp

/-- A string is scanned as it was quoted. -/
theorem scanValue_string (s : String) :
    scanValue (fuel + 1) (quote s ++ rest) = (.string s, rest) := by
  rw [quote_append]
  simp [scanValue, skipSpace_token, scanQuoted_flatMap]

/-- A list is scanned as its items are, if there are any. -/
theorem scanValue_list (hhead : ∃ c ds, cs = c :: ds ∧ isSpace c = false ∧ c ≠ ']')
    (h : scanItems fuel cs = (items, .closed, rest)) :
    scanValue (fuel + 1) ('[' :: cs) = (.list items .closed, rest) := by
  obtain ⟨c, ds, rfl, hspace, hc⟩ := hhead
  simp [scanValue, skipSpace_token, skipSpace_cons hspace, hc, h]

/-- An object is scanned as its fields are, if there are any. -/
theorem scanValue_object (h : scanFields fuel cs = (fields, .closed, rest)) :
    scanValue (fuel + 1) ('\x7b' :: '"' :: cs) = (.object fields .closed, rest) := by
  simp [scanValue, skipSpace_token, h]

/-- The last item of a list. -/
theorem scanItems_last (h : scanValue fuel cs = (item, ']' :: rest)) :
    scanItems (fuel + 1) cs = ([item], .closed, rest) := by
  simp [scanItems, skipSpace_token, h]

/-- An item that is not the last one. -/
theorem scanItems_cons (h : scanValue fuel cs = (item, ',' :: cs'))
    (hhead : ∃ c ds, cs' = c :: ds ∧ isSpace c = false ∧ c ≠ ']')
    (h' : scanItems fuel cs' = (items, .closed, rest)) :
    scanItems (fuel + 1) cs = (item :: items, .closed, rest) := by
  obtain ⟨c, ds, rfl, hspace, hc⟩ := hhead
  simp [scanItems, skipSpace_token, skipSpace_cons hspace, hc, h, h']

/-- The last field of an object. -/
theorem scanFields_last (h : scanQuoted cs = .found (some name) (':' :: cs'))
    (h' : scanValue fuel cs' = (value, '\x7d' :: rest)) :
    scanFields (fuel + 1) cs = ([(some (String.ofList name), value)], .closed, rest) := by
  simp [scanFields, skipSpace_token, h, h']

/-- A field that is not the last one. -/
theorem scanFields_cons {cs'' : List Char} (h : scanQuoted cs = .found (some name) (':' :: cs'))
    (h' : scanValue fuel cs' = (value, ',' :: '"' :: cs''))
    (h'' : scanFields fuel cs'' = (fields, .closed, rest)) :
    scanFields (fuel + 1) cs = ((some (String.ofList name), value) :: fields, .closed, rest) := by
  simp [scanFields, skipSpace_token, h, h', h'']

/-- The words for the truth values. -/
theorem scanValue_bool (b : Bool) :
    scanValue (fuel + 1) (chars (.bool b) ++ rest) = (.bool b, rest) := by
  cases b <;> simp [chars, scanValue, skipSpace_token, scanWord]

/-- A float is scanned as the float that it is, or as nothing if it is not finite. -/
theorem scanValue_float {x : Float} (hx : x.isFinite = true → ReadsBack x)
    (hrest : EndsNumber rest) :
    scanValue (fuel + 1) (chars (.float x) ++ rest) = (Tree.ofJson (written (.float x)), rest) := by
  by_cases hfinite : x.isFinite = true
  · have hchars : chars (.float x) = (Spelling.ofFloat x).chars := by
      show writeFloat x = _
      unfold writeFloat
      rw [if_pos hfinite, Spelling.chars_ofFloat]
    have htree : (Spelling.ofFloat x).tree = .float x :=
      Spelling.tree_ofFloat_eq_iff.mpr ((readsBack_iff hfinite).mp (hx hfinite))
    have hwritten : written (.float x) = .float x := if_pos hfinite
    rw [hchars, scanValue_number (Spelling.proper_ofFloat x) hrest, htree, hwritten]
    rfl
  · have hchars : chars (.float x) = ['n', 'u', 'l', 'l'] := if_neg hfinite
    -- What is not finite is written as `null`, and scanned as that.
    have hwritten : written (.float x) = .null := if_neg hfinite
    rw [hchars, hwritten]
    exact scanValue_null

/-! ### The whole of a value -/

/-- There is a step for the first character of a value, as every value has one. -/
theorem exists_succ_of_chars {j : Json} {n : ℕ} (h : 2 * (chars j).length ≤ n) :
    ∃ k, n = k + 1 := by
  obtain ⟨c, cs, hcs, -⟩ := head_chars j
  rw [hcs, List.length_cons] at h
  exact ⟨n - 1, by omega⟩

/-- The items of a list begin with a character that begins a value. -/
theorem head_itemChars (item : Json) (more : List Json) (rest : List Char) :
    ∃ c cs, itemChars (item :: more) ++ rest = c :: cs ∧ isSpace c = false ∧ c ≠ ']' := by
  obtain ⟨c, cs, hcs, hspace, hc⟩ := head_chars item
  cases more with
  | nil =>
    refine ⟨c, cs ++ rest, ?_, hspace, hc⟩
    show chars item ++ rest = _
    rw [hcs, List.cons_append]
  | cons next more =>
    refine ⟨c, cs ++ ',' :: itemChars (next :: more) ++ rest, ?_, hspace, hc⟩
    show chars item ++ ',' :: itemChars (next :: more) ++ rest = _
    rw [hcs, List.cons_append, List.cons_append]

-- The recursion follows the value. Every character pays for two steps of the scanner: one on the
-- way into a list or an object, and one into its first item or field.
mutual
/-- **A legible value is scanned from its text**, whatever may follow it. -/
theorem scanValue_chars : ∀ (j : Json) (fuel : ℕ) (rest : List Char), Legible j.numbers →
    2 * (chars j).length ≤ fuel → EndsNumber rest →
    scanValue fuel (chars j ++ rest) = (Tree.ofJson j.written, rest)
  | .null, fuel, rest, _, hfuel, _ => by
    obtain ⟨fuel, rfl⟩ := exists_succ_of_chars hfuel
    exact scanValue_null
  | .bool b, fuel, rest, _, hfuel, _ => by
    obtain ⟨fuel, rfl⟩ := exists_succ_of_chars hfuel
    exact scanValue_bool b
  | .int n, fuel, rest, hlegible, hfuel, hrest => by
    obtain ⟨fuel, rfl⟩ := exists_succ_of_chars hfuel
    have hn := hlegible.word n List.mem_cons_self
    show scanValue (fuel + 1) ((toString n).toList ++ rest) = (.int n, rest)
    rw [← Spelling.chars_ofInt, scanValue_number (Spelling.proper_ofInt n) hrest,
      Spelling.tree_ofInt hn]
  | .float x, fuel, rest, hlegible, hfuel, hrest => by
    obtain ⟨fuel, rfl⟩ := exists_succ_of_chars hfuel
    exact scanValue_float (hlegible.readsBack x List.mem_cons_self) hrest
  | .string s, fuel, rest, _, hfuel, _ => by
    obtain ⟨fuel, rfl⟩ := exists_succ_of_chars hfuel
    exact scanValue_string s
  | .list [], fuel, rest, _, hfuel, _ => by
    obtain ⟨fuel, rfl⟩ := exists_succ_of_chars hfuel
    show scanValue (fuel + 1) ('[' :: ']' :: rest) = (.list [] .closed, rest)
    simp [scanValue, skipSpace_token]
  | .list (item :: more), fuel, rest, hlegible, hfuel, _ => by
    obtain ⟨fuel, rfl⟩ := exists_succ_of_chars hfuel
    change 2 * ('[' :: itemChars (item :: more) ++ [']']).length ≤ fuel + 1 at hfuel
    rw [List.length_append, List.length_cons, List.length_singleton] at hfuel
    have hitems :=
      scanItems_chars (item :: more) fuel rest (List.cons_ne_nil _ _) hlegible (by omega)
    have hchars : chars (.list (item :: more)) ++ rest
        = '[' :: (itemChars (item :: more) ++ ']' :: rest) := by
      simp [chars]
    rw [hchars]
    exact scanValue_list (head_itemChars item more _) hitems
  | .object [], fuel, rest, _, hfuel, _ => by
    obtain ⟨fuel, rfl⟩ := exists_succ_of_chars hfuel
    show scanValue (fuel + 1) ('\x7b' :: '\x7d' :: rest) = (.object [] .closed, rest)
    simp [scanValue, skipSpace_token]
  | .object ((name, value) :: more), fuel, rest, hlegible, hfuel, _ => by
    obtain ⟨fuel, rfl⟩ := exists_succ_of_chars hfuel
    change 2 * ('\x7b' :: fieldChars ((name, value) :: more) ++ ['\x7d']).length ≤ fuel + 1 at hfuel
    rw [List.length_append, List.length_cons, List.length_singleton] at hfuel
    obtain ⟨cs, hcs, hfields⟩ := scanFields_chars ((name, value) :: more) fuel rest
      (List.cons_ne_nil _ _) hlegible (by omega)
    have hchars : chars (.object ((name, value) :: more)) ++ rest
        = '\x7b' :: '"' :: (cs ++ '\x7d' :: rest) := by
      simp [chars, hcs]
    rw [hchars]
    exact scanValue_object hfields

/-- The items of a list are scanned from their text. -/
theorem scanItems_chars : ∀ (items : List Json) (fuel : ℕ) (rest : List Char), items ≠ [] →
    Legible (itemNumbers items) → 2 * (itemChars items).length + 1 ≤ fuel →
    scanItems fuel (itemChars items ++ ']' :: rest)
      = (Tree.ofItems (writtenItems items), .closed, rest)
  | [], _, _, hne, _, _ => absurd rfl hne
  | [item], fuel, rest, _, hlegible, hfuel => by
    obtain ⟨fuel, rfl⟩ : ∃ k, fuel = k + 1 := ⟨fuel - 1, by omega⟩
    change 2 * (chars item).length + 1 ≤ fuel + 1 at hfuel
    have hitem := scanValue_chars item fuel (']' :: rest) hlegible.append.1 (by omega)
      (endsNumber_cons (.inr (.inl rfl)) rest)
    exact scanItems_last hitem
  | item :: next :: more, fuel, rest, _, hlegible, hfuel => by
    obtain ⟨fuel, rfl⟩ : ∃ k, fuel = k + 1 := ⟨fuel - 1, by omega⟩
    change 2 * (chars item ++ ',' :: itemChars (next :: more)).length + 1 ≤ fuel + 1 at hfuel
    rw [List.length_append, List.length_cons] at hfuel
    -- A comma ends the item, also if it is a number.
    have hitem := scanValue_chars item fuel (',' :: (itemChars (next :: more) ++ ']' :: rest))
      hlegible.append.1 (by omega) (endsNumber_cons (.inl rfl) _)
    have hmore := scanItems_chars (next :: more) fuel rest (List.cons_ne_nil _ _)
      hlegible.append.2 (by omega)
    have hchars : itemChars (item :: next :: more) ++ ']' :: rest
        = chars item ++ ',' :: (itemChars (next :: more) ++ ']' :: rest) := by
      simp [itemChars]
    rw [hchars]
    exact scanItems_cons hitem (head_itemChars next more _) hmore

/-- The fields of an object are scanned from their text, after the first quote. -/
theorem scanFields_chars : ∀ (fields : List (String × Json)) (fuel : ℕ) (rest : List Char),
    fields ≠ [] → Legible (fieldNumbers fields) → 2 * (fieldChars fields).length + 1 ≤ fuel →
    ∃ cs, fieldChars fields = '"' :: cs ∧ scanFields fuel (cs ++ '\x7d' :: rest)
      = (Tree.ofFields (writtenFields fields), .closed, rest)
  | [], _, _, hne, _, _ => absurd rfl hne
  | [(name, value)], fuel, rest, _, hlegible, hfuel => by
    obtain ⟨fuel, rfl⟩ : ∃ k, fuel = k + 1 := ⟨fuel - 1, by omega⟩
    change 2 * (quote name ++ ':' :: chars value).length + 1 ≤ fuel + 1 at hfuel
    rw [List.length_append, List.length_cons] at hfuel
    have hvalue := scanValue_chars value fuel ('\x7d' :: rest) hlegible.append.1 (by omega)
      (endsNumber_cons (.inr (.inr rfl)) rest)
    refine ⟨_, quote_append name (':' :: chars value), ?_⟩
    rw [List.append_assoc]
    have hfields := scanFields_last (scanQuoted_flatMap name) hvalue
    rw [String.ofList_toList] at hfields
    exact hfields
  | (name, value) :: next :: more, fuel, rest, _, hlegible, hfuel => by
    obtain ⟨fuel, rfl⟩ : ∃ k, fuel = k + 1 := ⟨fuel - 1, by omega⟩
    change 2 * (quote name ++ ':' :: chars value ++ ',' :: fieldChars (next :: more)).length + 1
      ≤ fuel + 1 at hfuel
    rw [List.length_append, List.length_append, List.length_cons, List.length_cons] at hfuel
    obtain ⟨cs, hcs, hmore⟩ := scanFields_chars (next :: more) fuel rest (List.cons_ne_nil _ _)
      hlegible.append.2 (by omega)
    -- As with items, a comma ends the value.
    have hvalue := scanValue_chars value fuel (',' :: '"' :: (cs ++ '\x7d' :: rest))
      hlegible.append.1 (by omega) (endsNumber_cons (.inl rfl) _)
    have hfields := scanFields_cons (scanQuoted_flatMap name) hvalue hmore
    rw [String.ofList_toList] at hfields
    refine ⟨name.toList.flatMap escape ++ '"' :: ':' :: (chars value ++ ',' :: '"' :: cs), ?_, ?_⟩
    · show quote name ++ ':' :: chars value ++ ',' :: fieldChars (next :: more) = _
      rw [hcs, List.append_assoc, quote_append]
      simp
    · have hassoc : name.toList.flatMap escape ++ '"' :: ':' :: (chars value ++ ',' :: '"' :: cs)
          ++ '\x7d' :: rest = name.toList.flatMap escape ++ '"' :: ':' :: (chars value
            ++ ',' :: '"' :: (cs ++ '\x7d' :: rest)) := by
        simp
      rw [hassoc]
      exact hfields
end

/-- The text of a legible value is laid out as that value, with nothing after it. -/
theorem ofText_render {j : Json} (h : Legible j.numbers) :
    Document.ofText j.render = ⟨Tree.ofJson j.written, []⟩ := by
  have hscan := scanValue_chars j (2 * (chars j).length + 2) [] h (by omega) endsNumber_nil
  rw [List.append_nil] at hscan
  unfold Document.ofText render
  rw [String.toList_ofList]
  dsimp only
  rw [hscan]

/-- So a reader sees the value. -/
theorem read_ofText_render {α : Type} {j : Json} (h : Legible j.numbers)
    (reader : Tree → Except Fault α) :
    (Document.ofText j.render).read reader = reader (Tree.ofJson j.written) := by
  rw [ofText_render h]
  unfold Document.read
  cases reader (Tree.ofJson j.written) <;> rfl

end MeshExpr.Json
