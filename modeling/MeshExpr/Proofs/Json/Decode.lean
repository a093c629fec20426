import MeshExpr.Json.Decode
import MeshExpr.Proofs.Checked
import MeshExpr.Proofs.Json.Text

namespace MeshExpr

/-!
# Data read from trees

What a reader of lists and tables makes of the tree of a list or a table follows from what it makes
of the single entries. An entry can be refused, since a float that is not finite is written as
`null`, so these lemmas are about readings that may be refused.

* `Json.writtenTree` — the tree of the text of a value.
* `Json.Reads p r a` — the reading `r` gives `a` if `p` holds, and finds the wrong shape otherwise.
* `Json.reads_mapM` — lists, entry by entry.
* `Json.reads_walkFields` — tables, entry by entry.
* `Json.invariant_of_walkFields` — what every step through an object keeps holds at its end.
-/

variable {α β σ : Type}

/-! ### Tables -/

namespace Named

/-- An entry whose name comes after all others is filed at the end. -/
theorem fileEntry_last {name : String} {value : α} {entries : List (String × α)}
    (h : ∀ entry ∈ entries, entry.1 < name) :
    fileEntry name value entries = entries ++ [(name, value)] := by
  induction entries with
  | nil => rfl
  | cons first rest ih =>
    have hfirst := h first List.mem_cons_self
    have hrest := ih fun entry hentry => h entry (List.mem_cons_of_mem _ hentry)
    unfold fileEntry
    rw [if_neg (String.lt_asymm hfirst), if_neg fun heq => String.lt_irrefl _ (heq ▸ hfirst), hrest]
    rfl

/-- An entry with a larger name than all others is filed behind them. -/
theorem entries_insert_last {t : Named α} {name : String} (value : α)
    (h : ∀ entry ∈ t.entries, entry.1 < name) :
    (t.insert name value).entries = t.entries ++ [(name, value)] :=
  fileEntry_last h

/-- Filing the rest of the entries of a table, in order, behind those that are there. -/
theorem foldl_insert_entries (t : Named α) {done : Named α} {rest : List (String × α)}
    (h : t.entries = done.entries ++ rest) :
    rest.foldl (fun t entry => t.insert entry.1 entry.2) done = t := by
  induction rest generalizing done with
  | nil => exact (ext_entries (h.trans (List.append_nil _))).symm
  | cons entry rest ih =>
    have hordered := t.ordered
    rw [h, List.pairwise_append] at hordered
    have hlast := entries_insert_last entry.2
      fun e he => hordered.2.2 e he entry List.mem_cons_self
    refine ih ?_
    rw [h, hlast, List.append_assoc]
    rfl

/-- Filing the entries of a table gives the table. -/
theorem ofList_entries (t : Named α) : ofList t.entries = t :=
  foldl_insert_entries t rfl

/-- No entry of a table is made up. -/
theorem mem_of_mem_ofList {entries : List (String × α)} {entry : String × α}
    (h : entry ∈ (ofList entries).entries) : entry ∈ entries := by
  have hfold : ∀ (l : List (String × α)) (t : Named α),
      entry ∈ (l.foldl (fun t entry => t.insert entry.1 entry.2) t).entries →
      entry ∈ t.entries ∨ entry ∈ l := by
    intro l
    induction l with
    | nil => exact fun t h => .inl h
    | cons first rest ih =>
      intro t h
      rcases ih _ h with h | h
      · rcases mem_fileEntry h with rfl | h
        · exact .inr List.mem_cons_self
        · exact .inl h
      · exact .inr (List.mem_cons_of_mem _ h)
  exact (hfold entries ∅ h).resolve_left List.not_mem_nil

end Named

namespace Json

/-! ### Trees of lists and objects -/

/-- The tree of a list is made item by item. -/
theorem ofItems_eq_map (items : List Json) : Tree.ofItems items = items.map Tree.ofJson := by
  induction items with
  | nil => rfl
  | cons item rest ih => exact congrArg (Tree.ofJson item :: ·) ih

/-- The tree of an object is made field by field, and every field has a name. -/
theorem ofFields_eq_map (fields : List (String × Json)) :
    Tree.ofFields fields = fields.map fun field => (some field.1, Tree.ofJson field.2) := by
  induction fields with
  | nil => rfl
  | cons field rest ih => exact congrArg ((some field.1, Tree.ofJson field.2) :: ·) ih

/-- A list is written item by item. -/
theorem writtenItems_eq_map (items : List Json) : writtenItems items = items.map written := by
  induction items with
  | nil => rfl
  | cons item rest ih => exact congrArg (written item :: ·) ih

/-- An object is written field by field. -/
theorem writtenFields_eq_map (fields : List (String × Json)) :
    writtenFields fields = fields.map fun field => (field.1, written field.2) := by
  induction fields with
  | nil => rfl
  | cons field rest ih => exact congrArg ((field.1, written field.2) :: ·) ih

/-- The tree of what is written for a value. -/
def writtenTree (j : Json) : Tree := Tree.ofJson j.written

/-- The tree of a list that is written, from those of its items. -/
theorem writtenTree_list (items : List Json) :
    writtenTree (.list items) = .list (items.map writtenTree) .closed := by
  show Tree.list (Tree.ofItems (writtenItems items)) .closed = _
  rw [writtenItems_eq_map, ofItems_eq_map, List.map_map]
  rfl

/-- The tree of an object that is written, from those of its fields. -/
theorem writtenTree_object (fields : List (String × Json)) :
    writtenTree (.object fields)
      = .object (fields.map fun field => (some field.1, writtenTree field.2)) .closed := by
  show Tree.object (Tree.ofFields (writtenFields fields)) .closed = _
  rw [writtenFields_eq_map, ofFields_eq_map, List.map_map]
  rfl

/-! ### Readings that may be refused -/

/-- The reading `r` gives `a` if `p` holds, and finds the wrong shape otherwise. -/
structure Reads (p : Prop) (r : Except Fault α) (a : α) : Prop where
  kept : p → r = .ok a
  refused : ¬p → r = .error .unfit

variable {p q : Prop} {r : Except Fault α} {a : α} {b : β}

/-- The condition can be said in another way. -/
theorem Reads.congr (h : Reads p r a) (hpq : p ↔ q) : Reads q r a :=
  ⟨fun hq => h.kept (hpq.mpr hq), fun hq => h.refused fun hp => hq (hpq.mp hp)⟩

/-- A reading that is never refused. -/
theorem reads_true (h : r = .ok a) : Reads True r a := ⟨fun _ => h, absurd trivial⟩

/-- A reading after a reading. -/
theorem Reads.bind {f : α → Except Fault β} (h : Reads p r a) (hf : Reads q (f a) b) :
    Reads (p ∧ q) (r >>= f) b := by
  by_cases hp : p
  · rw [h.kept hp]
    exact ⟨fun hpq => hf.kept hpq.2, fun hpq => hf.refused fun hq => hpq ⟨hp, hq⟩⟩
  · rw [h.refused hp]
    exact ⟨fun hpq => absurd hpq.1 hp, fun _ => rfl⟩

/-- A reading of which something is made. -/
theorem Reads.map (h : Reads p r a) (f : α → β) : Reads p (f <$> r) (f a) := by
  refine ⟨fun hp => ?_, fun hp => ?_⟩
  · rw [h.kept hp]
    rfl
  · rw [h.refused hp]
    rfl

/-- A list is read if all of its entries are. -/
theorem reads_mapM {read : Tree → Except Fault α} {tree : α → Tree} {p : α → Prop} {l : List α}
    (h : ∀ a ∈ l, Reads (p a) (read (tree a)) a) :
    Reads (∀ a ∈ l, p a) ((l.map tree).mapM read) l := by
  induction l with
  | nil => exact ⟨fun _ => rfl, fun hnil => absurd nofun hnil⟩
  | cons a rest ih =>
    have hrest := ih fun b hb => h b (List.mem_cons_of_mem _ hb)
    rw [List.map_cons, List.mapM_cons]
    refine Reads.congr ((h a List.mem_cons_self).bind (hrest.map (a :: ·))) ?_
    exact List.forall_mem_cons.symm

/-- A list in its brackets. -/
theorem reads_readItems {read : Tree → Except Fault α} {tree : α → Tree} {p : α → Prop}
    {l : List α} (h : ∀ a ∈ l, Reads (p a) (read (tree a)) a) :
    Reads (∀ a ∈ l, p a) (Tree.readItems read (.list (l.map tree) .closed)) l := by
  have hitems : Tree.readItems read (.list (l.map tree) .closed) = (l.map tree).mapM read := by
    unfold Tree.readItems
    dsimp only
    cases (l.map tree).mapM read <;> rfl
  rw [hitems]
  exact reads_mapM h

/-- A list of which every entry is read from its tree. -/
theorem readItems_writtenTree {read : Tree → Except Fault α} {f : α → Json} {l : List α}
    (h : ∀ a ∈ l, read (writtenTree (f a)) = .ok a) :
    Tree.readItems read (writtenTree (.list (l.map f))) = .ok l := by
  rw [writtenTree_list, List.map_map]
  exact (reads_readItems fun a ha => reads_true (h a ha)).kept fun _ _ => trivial

/-- One step through an object. -/
theorem walkFields_cons {step : σ → String → Tree → Except Fault σ} (start : σ) (name : String)
    (value : Tree) (rest : List (Option String × Tree)) (ending : Ending) :
    Tree.walkFields step start ((some name, value) :: rest) ending
      = step start name value >>= fun s => Tree.walkFields step s rest ending := rfl

/-- An object with one field takes one step. -/
theorem walkFields_singleton {step : σ → String → Tree → Except Fault σ} (start : σ) (name : String)
    (value : Tree) :
    Tree.walkFields step start [(some name, value)] .closed = step start name value := by
  rw [walkFields_cons]
  cases step start name value <;> rfl

/-- The rest of a table is read behind what was read of it. -/
theorem reads_walkFields_from {read : Tree → Except Fault α} {tree : α → Tree} {p : α → Prop}
    (t : Named α) {done : Named α} {rest : List (String × α)}
    (ht : t.entries = done.entries ++ rest)
    (h : ∀ e ∈ rest, Reads (p e.2) (read (tree e.2)) e.2) :
    Reads (∀ e ∈ rest, p e.2)
      (Tree.walkFields (fun t name tree => do return t.insert name (← read tree)) done
        (rest.map fun e => (some e.1, tree e.2)) .closed) t := by
  induction rest generalizing done with
  | nil =>
    obtain rfl : t = done := Named.ext_entries (ht.trans (List.append_nil _))
    exact ⟨fun _ => rfl, fun hnil => absurd nofun hnil⟩
  | cons entry rest ih =>
    -- The names come in order, so each entry is filed behind those that were read before.
    have hordered := t.ordered
    rw [ht, List.pairwise_append] at hordered
    have hlast := Named.entries_insert_last entry.2
      fun e he => hordered.2.2 e he entry List.mem_cons_self
    have hrest := @ih (done.insert entry.1 entry.2)
      (by rw [ht, hlast, List.append_assoc]; rfl) fun e he => h e (List.mem_cons_of_mem _ he)
    have hstep := (h entry List.mem_cons_self).map (done.insert entry.1)
    rw [List.map_cons, walkFields_cons]
    refine Reads.congr (hstep.bind hrest) ?_
    rw [List.forall_mem_cons]

/-- A table is read if all of its entries are. -/
theorem reads_walkFields {read : Tree → Except Fault α} {tree : α → Tree} {p : α → Prop}
    (t : Named α) (h : ∀ e ∈ t.entries, Reads (p e.2) (read (tree e.2)) e.2) :
    Reads (∀ e ∈ t.entries, p e.2)
      (Tree.walkFields (fun t name tree => do return t.insert name (← read tree)) ∅
        (t.entries.map fun e => (some e.1, tree e.2)) .closed) t :=
  reads_walkFields_from t rfl h

/-! ### Any object -/

/-- What every step through an object keeps holds at its end. -/
theorem invariant_of_walkFields {step : σ → String → Tree → Except Fault σ} {inv : σ → Prop}
    {fields : List (Option String × Tree)} {ending : Ending}
    (hstep : ∀ s name tree s', (some name, tree) ∈ fields → inv s →
      step s name tree = .ok s' → inv s')
    {start result : σ} (hstart : inv start)
    (h : Tree.walkFields step start fields ending = .ok result) : inv result := by
  induction fields generalizing start with
  -- At the end there is only the bracket to be asked for.
  | nil =>
    unfold Tree.walkFields at h
    obtain ⟨-, -, hresult⟩ := bind_eq_ok_iff.mp h
    obtain rfl := Except.ok.inj hresult
    exact hstart
  | cons field rest ih =>
    obtain ⟨name, value⟩ := field
    unfold Tree.walkFields at h
    obtain ⟨name', hname, hwalk⟩ := bind_eq_ok_iff.mp h
    obtain ⟨next, hnext, hrest⟩ := bind_eq_ok_iff.mp hwalk
    cases name with
    -- A name that is broken ends the walk.
    | none => cases hname
    | some name =>
      obtain rfl := Except.ok.inj hname
      have hinv := hstep start name value next List.mem_cons_self hstart hnext
      exact ih (fun s name tree s' hmem => hstep s name tree s' (List.mem_cons_of_mem _ hmem))
        hinv hrest

end Json

end MeshExpr
