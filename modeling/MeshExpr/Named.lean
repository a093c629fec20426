namespace MeshExpr

/-!
# Entries filed under names

A table files each entry under one name and lists its entries in the order of the names, which
is the order of their code points. Schemas, state variables, attributes, parameters and the
history are such tables, and their order is the order in which answers list them.

* `Named.insert` files an entry, in place of the one that had the name before.
* `Named.ofList` files a list of entries; of two entries of one name the later one stays.
* `Named.get?_insert` says what every look-up sees after an insertion.
* `Named.ext_get?` : a table is determined by its look-ups.
-/

variable {α β : Type}

/-! ### Lists of entries -/

/-- The entries of a list in which the names increase stay so when `value` is filed under
    `name`: before the first larger name, or in place of the entry of that name. -/
def fileEntry (name : String) (value : α) : List (String × α) → List (String × α)
  | [] => [(name, value)]
  | entry :: rest =>
    if name < entry.1 then (name, value) :: entry :: rest
    else if name = entry.1 then (name, value) :: rest
    else entry :: fileEntry name value rest

/-- The entry that a list holds under `name`. -/
def findEntry (name : String) : List (String × α) → Option α
  | [] => none
  | entry :: rest => if entry.1 = name then some entry.2 else findEntry name rest

/-- Filing an entry adds no other one. -/
theorem mem_fileEntry {name : String} {value : α} {entry : String × α}
    {entries : List (String × α)} (h : entry ∈ fileEntry name value entries) :
    entry = (name, value) ∨ entry ∈ entries := by
  induction entries with
  | nil => simpa [fileEntry] using h
  | cons first rest ih =>
    simp only [fileEntry] at h
    split at h
    · simpa using h
    · split at h
      · simp only [List.mem_cons] at h ⊢
        exact h.imp_right Or.inr
      · simp only [List.mem_cons] at h ⊢
        rcases h with h | h
        · exact .inr (.inl h)
        · exact (ih h).imp_right Or.inr

/-- Entries that are filed one by one stay in the order of their names. -/
theorem pairwise_fileEntry (name : String) (value : α) {entries : List (String × α)}
    (h : entries.Pairwise (fun a b => a.1 < b.1)) :
    (fileEntry name value entries).Pairwise (fun a b => a.1 < b.1) := by
  induction entries with
  | nil => simp [fileEntry]
  | cons first rest ih =>
    obtain ⟨hfirst, hrest⟩ := List.pairwise_cons.1 h
    simp only [fileEntry]
    split
    · next hlt =>
      refine List.pairwise_cons.2 ⟨fun entry he => ?_, h⟩
      rcases List.mem_cons.1 he with rfl | he
      · exact hlt
      · exact String.lt_trans hlt (hfirst entry he)
    · next hnlt =>
      split
      · next heq => exact List.pairwise_cons.2 ⟨fun entry he => heq ▸ hfirst entry he, hrest⟩
      · next hne =>
        refine List.pairwise_cons.2 ⟨fun entry he => ?_, ih hrest⟩
        -- Behind the first entry stands the new one, which is larger, or one that was there before.
        rcases mem_fileEntry he with rfl | he
        · grind
        · exact hfirst entry he

/-- A value that was filed is found under its name, and the others under theirs. -/
theorem findEntry_fileEntry (name other : String) (value : α) (entries : List (String × α)) :
    findEntry other (fileEntry name value entries) =
      if name = other then some value else findEntry other entries := by
  induction entries with
  | nil => simp [fileEntry, findEntry]
  | cons first rest ih => grind [fileEntry, findEntry]

/-- Nothing is found under a name that no entry has. -/
theorem findEntry_eq_none {name : String} {entries : List (String × α)}
    (h : ∀ entry ∈ entries, entry.1 ≠ name) : findEntry name entries = none := by
  induction entries with
  | nil => rfl
  | cons first rest ih =>
    simp only [findEntry, h first (by simp), ↓reduceIte]
    exact ih fun entry he => h entry (by simp [he])

/-! ### Tables -/

/-- Entries filed under distinct names, in the order of the names. -/
structure Named (α : Type) where
  /-- The entries in the order of their names. -/
  entries : List (String × α)
  /-- Each name is smaller than the next one. -/
  ordered : entries.Pairwise (fun a b => a.1 < b.1)

namespace Named

/-- A table is what its entries are. -/
theorem ext_entries {s t : Named α} (h : s.entries = t.entries) : s = t := by
  cases s; cases t; cases h; rfl

instance [DecidableEq α] : DecidableEq (Named α) := fun s t =>
  decidable_of_iff (s.entries = t.entries) ⟨ext_entries, fun h => h ▸ rfl⟩

/-- The table with no entry. -/
def empty : Named α := ⟨[], List.Pairwise.nil⟩

instance : EmptyCollection (Named α) := ⟨empty⟩
instance : Inhabited (Named α) := ⟨empty⟩

/-- Files `value` under `name`. -/
def insert (t : Named α) (name : String) (value : α) : Named α :=
  ⟨fileEntry name value t.entries, pairwise_fileEntry name value t.ordered⟩

/-- The entry filed under `name`. -/
def get? (t : Named α) (name : String) : Option α := findEntry name t.entries

/-- Whether an entry is filed under `name`. -/
def contains (t : Named α) (name : String) : Bool := (t.get? name).isSome

/-- The names in order. -/
def names (t : Named α) : List String := t.entries.map (·.1)

/-- Whether the table has no entry. -/
def isEmpty (t : Named α) : Bool := t.entries.isEmpty

/-- The number of entries. -/
def size (t : Named α) : Nat := t.entries.length

/-- Files the entries of a list one after the other, so that of two of one name the later stays. -/
def ofList (entries : List (String × α)) : Named α :=
  entries.foldl (fun t entry => t.insert entry.1 entry.2) ∅

/-- Whether two tables file under the same names entries that `same` relates. -/
def all₂ (same : α → α → Bool) (s t : Named α) : Bool :=
  s.names == t.names && (s.entries.zip t.entries).all fun (a, b) => same a.2 b.2

@[simp] theorem get?_empty (name : String) : (∅ : Named α).get? name = none := rfl

/-- What is found after an insertion: under its name the new value, elsewhere what was there. -/
theorem get?_insert (t : Named α) (name other : String) (value : α) :
    (t.insert name value).get? other = if name = other then some value else t.get? other :=
  findEntry_fileEntry name other value t.entries

@[simp] theorem get?_insert_self (t : Named α) (name : String) (value : α) :
    (t.insert name value).get? name = some value := by simp [get?_insert]

/-- An insertion changes nothing under other names. -/
theorem get?_insert_of_ne (t : Named α) {name other : String} (value : α) (h : name ≠ other) :
    (t.insert name value).get? other = t.get? other := by simp [get?_insert, h]

/-- A table is determined by what is found under each name. -/
theorem ext_get? {s t : Named α} (h : ∀ name, s.get? name = t.get? name) : s = t := by
  apply ext_entries
  obtain ⟨a, ha⟩ := s
  obtain ⟨b, hb⟩ := t
  simp only [get?] at h ⊢
  -- The tables are compared entry by entry. Their first names are equal: the smaller one of them
  -- would be found in one table only.
  induction a generalizing b with
  | nil =>
    cases b with
    | nil => rfl
    | cons y b => simpa [findEntry] using h y.1
  | cons x a ih =>
    cases b with
    | nil => simpa [findEntry] using h x.1
    | cons y b =>
      obtain ⟨hxa, ha⟩ := List.pairwise_cons.1 ha
      obtain ⟨hyb, hb⟩ := List.pairwise_cons.1 hb
      have absent_of_lt : ∀ {z : String × α} {l : List (String × α)} {name : String},
          name < z.1 → (∀ e ∈ l, z.1 < e.1) → findEntry name (z :: l) = none := by
        intro z l name hz hl
        refine findEntry_eq_none fun e he hne => ?_
        rcases List.mem_cons.1 he with rfl | he
        · exact String.lt_irrefl _ (hne ▸ hz)
        · exact String.lt_irrefl _ (hne ▸ String.lt_trans hz (hl e he))
      have hxy : x.1 = y.1 := by
        rcases Decidable.em (x.1 < y.1) with hlt | hnlt
        · have := (h x.1).trans (absent_of_lt hlt hyb)
          simp [findEntry] at this
        · rcases Decidable.em (y.1 < x.1) with hlt | hnlt'
          · have := (h y.1).symm.trans (absent_of_lt hlt hxa)
            simp [findEntry] at this
          · grind
      have hval : x.2 = y.2 := by
        have := h x.1
        simpa [findEntry, hxy] using this
      have hrest : a = b := by
        -- Neither rest has the first name once more, and under all other names it is found what the
        -- whole tables have.
        refine ih ha b hb fun name => ?_
        rcases Decidable.em (x.1 = name) with rfl | hne
        · have hb' : findEntry x.1 b = none :=
            findEntry_eq_none fun e he hne => String.lt_irrefl y.1 (by grind)
          have ha' : findEntry x.1 a = none :=
            findEntry_eq_none fun e he hne => String.lt_irrefl x.1 (by grind)
          rw [ha', hb']
        · have := h name
          simpa [findEntry, hne, hxy ▸ hne] using this
      rw [hrest, Prod.ext hxy hval]

end Named

end MeshExpr
