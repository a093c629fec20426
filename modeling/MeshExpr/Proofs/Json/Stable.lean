import MeshExpr.Proofs.Json.Decode

namespace MeshExpr.Json

/-!
# What was read once is read again

A value that comes out of a text can be written and read again: its integers have sixty-four bits,
its floats are finite, its objects list their fields by name, and it is not nested any deeper than
the text that it comes from.

* `Tree.Plain` — the numbers in a tree are such numbers. `plain_ofText` — they are in every text.
* `Stable room j` — the value is read from its own tree, in the same room.
* `stable_of_json` — **every value that is read from a text is stable.**
* `Yields read good` — what the reader makes of trees with plain numbers is good: lists, and records
  that are written as lists.
-/

/-! ### Numbers in texts -/

namespace Tree

mutual
/-- The integers in a tree have sixty-four bits, and the floats are finite. -/
def Plain : Tree → Prop
  | .int n => isWord n = true
  | .float x => x.isFinite = true
  | .list items _ => PlainItems items
  | .object fields _ => PlainFields fields
  | _ => True

/-- The numbers in the items of a list are plain. -/
def PlainItems : List Tree → Prop
  | [] => True
  | item :: rest => item.Plain ∧ PlainItems rest

/-- The numbers in the fields of an object are plain. -/
def PlainFields : List (Option String × Tree) → Prop
  | [] => True
  | (_, value) :: rest => value.Plain ∧ PlainFields rest
end

/-- The items of a list, one by one. -/
theorem plainItems_iff {items : List Tree} : PlainItems items ↔ ∀ item ∈ items, item.Plain := by
  induction items with
  | nil => exact iff_of_true trivial nofun
  | cons item rest ih => rw [List.forall_mem_cons, ← ih, PlainItems]

/-- The fields of an object, one by one. -/
theorem plainFields_iff {fields : List (Option String × Tree)} :
    PlainFields fields ↔ ∀ field ∈ fields, field.2.Plain := by
  induction fields with
  | nil => exact iff_of_true trivial nofun
  | cons field rest ih => rw [List.forall_mem_cons, ← ih, PlainFields]

end Tree

/-- A word is plain, as it is no number. -/
theorem plain_scanWord (value : Tree) (hvalue : value.Plain) (letters cs : List Char) :
    (scanWord value letters cs).1.Plain := by
  induction letters generalizing cs with
  | nil => exact hvalue
  | cons letter letters ih =>
    cases cs with
    | nil => trivial
    | cons c rest =>
      unfold scanWord
      split
      · exact ih rest
      · trivial

/-- A number that is spelled without point and exponent is an integer only if it has sixty-four
    bits. -/
theorem Spelling.plain_tree (s : Spelling) : s.tree.Plain := by
  unfold Spelling.tree
  dsimp only
  generalize (if s.negative then -(digitsValue s.whole : Int) else digitsValue s.whole) = whole
  split
  · rename_i h
    simp only [Bool.and_eq_true] at h
    exact h.1.2
  · split
    · rename_i x hx
      exact isFinite_of_float? hx
    · trivial

mutual
/-- **What is scanned from a text is plain.** The induction is on the steps that are left, for
    values, items and fields at once. -/
theorem plain_scanValue : ∀ (fuel : ℕ) (cs : List Char), (scanValue fuel cs).1.Plain
  | 0, _ => trivial
  | fuel + 1, cs => by
    unfold scanValue
    split
    · trivial
    · split <;> trivial
    · split
      · trivial
      · trivial
      · exact plain_scanItems fuel _
    · split
      · trivial
      · trivial
      · exact plain_scanFields fuel _
      · trivial
    · exact plain_scanWord .null trivial _ _
    · exact plain_scanWord (.bool true) trivial _ _
    · exact plain_scanWord (.bool false) trivial _ _
    · split
      · split
        · exact Spelling.plain_tree _
        · trivial
      · trivial

/-- So are the items of a list. -/
theorem plain_scanItems : ∀ (fuel : ℕ) (cs : List Char), Tree.PlainItems (scanItems fuel cs).1
  | 0, _ => trivial
  | fuel + 1, cs => by
    have hitem := plain_scanValue fuel cs
    unfold scanItems
    dsimp only
    split
    · exact ⟨hitem, trivial⟩
    · exact ⟨hitem, trivial⟩
    · split
      · exact ⟨hitem, trivial⟩
      · exact ⟨hitem, trivial⟩
      · exact ⟨hitem, plain_scanItems fuel _⟩
    · exact ⟨hitem, trivial⟩

/-- And the fields of an object. -/
theorem plain_scanFields : ∀ (fuel : ℕ) (cs : List Char), Tree.PlainFields (scanFields fuel cs).1
  | 0, _ => trivial
  | fuel + 1, cs => by
    unfold scanFields
    split
    · trivial
    · dsimp only
      split
      · exact ⟨trivial, trivial⟩
      · rename_i rest _
        -- The value of the first field is plain, whatever may follow it.
        have hvalue := plain_scanValue fuel rest
        split
        · exact ⟨hvalue, trivial⟩
        · exact ⟨hvalue, trivial⟩
        · split
          · exact ⟨hvalue, trivial⟩
          · exact ⟨hvalue, plain_scanFields fuel _⟩
          · exact ⟨hvalue, trivial⟩
        · exact ⟨hvalue, trivial⟩
      · exact ⟨trivial, trivial⟩
end

/-- The numbers in a text are plain. -/
theorem plain_ofText (text : String) : (Document.ofText text).tree.Plain := by
  unfold Document.ofText
  exact plain_scanValue _ _

/-! ### Stable values -/

/-- The value is read from its own tree in the same room, and its integers have sixty-four bits. -/
structure Stable (room : ℕ) (j : Json) : Prop where
  again : (writtenTree j).json room = .ok j
  word : ∀ n, .int n ∈ j.numbers → isWord n = true

variable {room : ℕ}

/-- Stable items are read back from the tree that is written. -/
theorem jsonItems_map {items : List Json} (h : ∀ item ∈ items, Stable room item) :
    Tree.jsonItems room (items.map writtenTree) = .ok items := by
  induction items with
  | nil => rfl
  | cons item rest ih =>
    have hrest := ih fun j hj => h j (List.mem_cons_of_mem _ hj)
    show (do return (← (writtenTree item).json room)
      :: (← Tree.jsonItems room (rest.map writtenTree)) : Except Fault (List Json)) = _
    rw [(h item List.mem_cons_self).again, hrest]
    rfl

/-- So are stable fields. -/
theorem jsonFields_map {fields : List (String × Json)} (h : ∀ field ∈ fields, Stable room field.2) :
    Tree.jsonFields room (fields.map fun field => (some field.1, writtenTree field.2))
      = .ok fields := by
  induction fields with
  | nil => rfl
  | cons field rest ih =>
    have hrest := ih fun e he => h e (List.mem_cons_of_mem _ he)
    show (do
      let value ← (writtenTree field.2).json room
      return (field.1, value) :: (← Tree.jsonFields room
        (rest.map fun field => (some field.1, writtenTree field.2))) :
      Except Fault (List (String × Json))) = _
    rw [(h field List.mem_cons_self).again, hrest]
    rfl

/-- A list of stable items is stable, one level deeper. -/
theorem stable_list {items : List Json} (h : ∀ item ∈ items, Stable room item) :
    Stable (room + 1) (.list items) := by
  constructor
  · rw [writtenTree_list]
    show (do
      let items ← Tree.jsonItems room (items.map writtenTree)
      Ending.closed.require
      return Json.list items : Except Fault Json) = _
    rw [jsonItems_map h]
    rfl
  · intro n hn
    change .int n ∈ itemNumbers items at hn
    rw [itemNumbers_eq] at hn
    obtain ⟨item, hitem, hn⟩ := List.mem_flatMap.mp hn
    exact (h item hitem).word n hn

/-- The fields of a table are in order already. -/
theorem stable_table {t : Named Json} (h : ∀ field ∈ t.entries, Stable room field.2) :
    Stable (room + 1) (.table t) := by
  constructor
  · unfold table
    rw [writtenTree_object]
    show (do
      let fields ← Tree.jsonFields room
        (t.entries.map fun field => (some field.1, writtenTree field.2))
      Ending.closed.require
      return Json.table (.ofList fields) : Except Fault Json) = _
    rw [jsonFields_map h]
    -- Filing fields that are in order already changes nothing.
    show Except.ok (Json.table (.ofList t.entries)) = _
    rw [Named.ofList_entries]
    rfl
  · intro n hn
    change .int n ∈ fieldNumbers t.entries at hn
    rw [fieldNumbers_eq] at hn
    obtain ⟨field, hfield, hn⟩ := List.mem_flatMap.mp hn
    exact (h field hfield).word n hn

/-- Integers of sixty-four bits are stable. -/
theorem stable_int {n : Int} (h : isWord n = true) : Stable room (.int n) :=
  ⟨rfl, fun m hm => by
    obtain rfl := Json.int.inj (List.mem_singleton.mp hm)
    exact h⟩

/-- Finite floats are stable. -/
theorem stable_float {x : Float} (h : x.isFinite = true) : Stable room (.float x) := by
  refine ⟨?_, fun n hn => nomatch List.mem_singleton.mp hn⟩
  unfold writtenTree written
  rw [if_pos h]
  rfl

mutual
/-- **Every value that is read from a text is stable.** -/
theorem stable_of_json : ∀ {tree : Tree} {room : ℕ} {j : Json}, tree.Plain →
    tree.json room = .ok j → Stable room j
  | .null, _, _, _, h => by
    obtain rfl := Except.ok.inj h
    exact ⟨rfl, nofun⟩
  | .bool b, _, _, _, h => by
    obtain rfl := Except.ok.inj h
    exact ⟨rfl, nofun⟩
  | .int n, _, _, hplain, h => by
    obtain rfl := Except.ok.inj h
    exact stable_int hplain
  | .float x, _, _, hplain, h => by
    obtain rfl := Except.ok.inj h
    exact stable_float hplain
  | .string s, _, _, _, h => by
    obtain rfl := Except.ok.inj h
    exact ⟨rfl, nofun⟩
  | .list items ending, 0, _, _, h => nomatch h
  | .list items ending, room + 1, j, hplain, h => by
    change (do
      let items ← Tree.jsonItems room items
      ending.require
      return Json.list items : Except Fault Json) = .ok j at h
    obtain ⟨js, hjs, hrest⟩ := bind_eq_ok_iff.mp h
    obtain ⟨-, -, hj⟩ := bind_eq_ok_iff.mp hrest
    obtain rfl := Except.ok.inj hj
    exact stable_list (stable_of_jsonItems hplain hjs)
  | .object fields ending, 0, _, _, h => nomatch h
  | .object fields ending, room + 1, j, hplain, h => by
    change (do
      let fields ← Tree.jsonFields room fields
      ending.require
      return Json.table (.ofList fields) : Except Fault Json) = .ok j at h
    obtain ⟨js, hjs, hrest⟩ := bind_eq_ok_iff.mp h
    obtain ⟨-, -, hj⟩ := bind_eq_ok_iff.mp hrest
    obtain rfl := Except.ok.inj hj
    -- Of two fields of one name only the later one is in the table, but none is new.
    exact stable_table fun field hfield =>
      stable_of_jsonFields hplain hjs field (Named.mem_of_mem_ofList hfield)
  | .unusable, _, _, _, h | .absent, _, _, _, h | .brokenString _, _, _, _, h
  | .broken _, _, _, _, h => nomatch h

/-- So are the items of a list that is read. -/
theorem stable_of_jsonItems : ∀ {items : List Tree} {room : ℕ} {js : List Json},
    Tree.PlainItems items → Tree.jsonItems room items = .ok js → ∀ j ∈ js, Stable room j
  | [], _, _, _, h => by
    obtain rfl := Except.ok.inj h
    exact nofun
  | item :: rest, room, js, hplain, h => by
    obtain ⟨j, hj, hrest⟩ := bind_eq_ok_iff.mp h
    obtain ⟨js', hjs', hcons⟩ := bind_eq_ok_iff.mp hrest
    obtain rfl := Except.ok.inj hcons
    exact List.forall_mem_cons.mpr ⟨stable_of_json hplain.1 hj, stable_of_jsonItems hplain.2 hjs'⟩

/-- And the fields of an object. -/
theorem stable_of_jsonFields : ∀ {fields : List (Option String × Tree)} {room : ℕ}
    {js : List (String × Json)}, Tree.PlainFields fields → Tree.jsonFields room fields = .ok js →
    ∀ field ∈ js, Stable room field.2
  | [], _, _, _, h => by
    obtain rfl := Except.ok.inj h
    exact nofun
  | (name, value) :: rest, room, js, hplain, h => by
    obtain ⟨name', -, hvalue⟩ := bind_eq_ok_iff.mp h
    obtain ⟨j, hj, hrest⟩ := bind_eq_ok_iff.mp hvalue
    obtain ⟨js', hjs', hcons⟩ := bind_eq_ok_iff.mp hrest
    obtain rfl := Except.ok.inj hcons
    exact List.forall_mem_cons.mpr ⟨stable_of_json hplain.1 hj, stable_of_jsonFields hplain.2 hjs'⟩
end

/-- The floats in a value. -/
def floats (j : Json) : List Float :=
  j.numbers.filterMap fun
    | .float x => some x
    | _ => none

/-- The floats of a value are those of its numbers that are floats. -/
theorem mem_floats {j : Json} {x : Float} : x ∈ j.floats ↔ .float x ∈ j.numbers := by
  unfold floats
  rw [List.mem_filterMap]
  constructor
  · rintro ⟨number, hnumber, hx⟩
    split at hx
    · obtain rfl := Option.some.inj hx
      exact hnumber
    · cases hx
  · exact fun hx => ⟨.float x, hx, rfl⟩

/-- A stable value is scanned from its text if its floats are read back. -/
theorem Stable.legible {j : Json} (h : Stable room j) (hfloats : AllReadBack j.floats) :
    Legible j.numbers :=
  ⟨h.word, fun x hx => hfloats x (mem_floats.mpr hx)⟩

/-! ### Readers of plain trees -/

/-- Whatever the reader makes of a tree with plain numbers is good. -/
def Yields {α : Type} (read : Tree → Except Fault α) (good : α → Prop) : Prop :=
  ∀ ⦃tree a⦄, tree.Plain → read tree = .ok a → good a

section Yields

variable {α : Type} {read : Tree → Except Fault α} {good : α → Prop}

/-- Nothing is asked of what is read. -/
theorem yields_true (read : Tree → Except Fault α) : Yields read fun _ => True :=
  fun _ _ _ _ => trivial

/-- If a reader of items makes good ones, then a list has good ones only. -/
theorem Yields.readItems (hread : Yields read good) :
    Yields (Tree.readItems read) fun l => ∀ a ∈ l, good a := by
  intro tree l hplain h
  cases tree with
  | list items ending =>
    obtain ⟨found, hfound, hrest⟩ := bind_eq_ok_iff.mp h
    obtain ⟨-, -, hl⟩ := bind_eq_ok_iff.mp hrest
    obtain rfl := Except.ok.inj hl
    intro a ha
    have hfound := mapM_eq_ok_iff.mp hfound
    obtain ⟨item, hitem, ha⟩ := exists_of_forall₂ (List.Forall₂.flip hfound) ha
    exact hread (Tree.plainItems_iff.mp hplain item hitem) ha
  | _ => cases h

/-- The next item of a record that is written as a list, and the items after it. -/
theorem Yields.nextItem (hread : Yields read good) {items rest : List Tree} {ending : Ending}
    {found : Option α} (hplain : Tree.PlainItems items)
    (h : Tree.nextItem read items ending = .ok (found, rest)) :
    (∀ a, found = some a → good a) ∧ Tree.PlainItems rest := by
  cases items with
  | nil =>
    obtain ⟨-, -, hnone⟩ := bind_eq_ok_iff.mp h
    obtain ⟨rfl, rfl⟩ := Prod.mk.inj (Except.ok.inj hnone)
    exact ⟨nofun, trivial⟩
  | cons item more =>
    obtain ⟨a, ha, hsome⟩ := bind_eq_ok_iff.mp h
    obtain ⟨rfl, rfl⟩ := Prod.mk.inj (Except.ok.inj hsome)
    refine ⟨fun b hb => ?_, hplain.2⟩
    obtain rfl := Option.some.inj hb
    exact hread hplain.1 ha

/-- A field that is read at most once. -/
theorem Yields.once (hread : Yields read good) {tree : Tree} {slot found : Option α}
    (hplain : tree.Plain) (h : Tree.once slot (read tree) = .ok found) :
    ∀ a, found = some a → good a := by
  intro a ha
  cases slot with
  | some _ => cases h
  | none =>
    change some <$> read tree = .ok found at h
    cases hb : read tree with
    | error fault =>
      rw [hb] at h
      cases h
    | ok b =>
      rw [hb] at h
      obtain rfl := Option.some.inj ((Except.ok.inj h).trans ha)
      exact hread hplain hb

/-- What is read from a text is good. -/
theorem Yields.of_text (hread : Yields read good) {text : String} {a : α}
    (h : (Document.ofText text).read read = .ok a) : good a := by
  obtain ⟨b, hb, hrest⟩ := bind_eq_ok_iff.mp h
  split at hrest
  · obtain rfl := Except.ok.inj hrest
    exact hread (plain_ofText text) hb
  · cases hrest

end Yields

/-- A field that is needed and is found. -/
theorem eq_some_of_needed {α : Type} {o : Option α} {a : α} (h : Tree.needed o = .ok a) :
    o = some a := by
  cases o with
  | none => cases h
  | some b =>
    obtain rfl := Except.ok.inj h
    rfl

end MeshExpr.Json
