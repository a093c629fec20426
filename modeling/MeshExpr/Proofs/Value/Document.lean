import MeshExpr.Proofs.Json.Decode
import MeshExpr.Proofs.Number.Value
import MeshExpr.Value.Document

namespace MeshExpr

open Json (Tree Fault Reads)

/-!
# Values are read back from their documents

A document says of which kind a value is, and its numbers say by how they are spelled whether they
are integers or floats. So the reader has no choice: it finds the value that was written. Where a
float is not finite there is `null` in the document, which is no number, and the value is refused.

* `Value.floats` and `Value.counts` — the floats and the counts in a value.
* `Payload.reads_tree`, `Attribute.reads_tree` — payloads and attributes.
* `Value.reads_tree` — **a value is read back if all floats in it are finite**, and is refused
  otherwise.
* `Value.legible_toJson` — all numbers in the document of a value can be read back.
* `Value.reads_text` — hence a value is read back from its text as well.
-/

/-! ### Floats and counts -/

/-- The floats in a number. -/
def Number.floats : Number → List Float
  | .int _ => []
  | .float x => [x]

/-- The floats in a payload. -/
def Payload.floats : Payload → List Float
  | .empty | .boolean _ | .fieldRef _ => []
  | .scalar n => n.floats
  | .vector v => v.toList
  | .histogram h => [h.minVal, h.maxVal]

/-- The counts in a payload. -/
def Payload.counts : Payload → List Nat
  | .histogram h => h.counts
  | _ => []

/-- The floats in an attribute. -/
def Attribute.floats : Attribute → List Float
  | .number n => n.floats
  | .vector v => v.toList

/-- The floats in a value. -/
def Value.floats (v : Value) : List Float :=
  v.payload.floats ++ v.attrs.entries.flatMap fun entry => entry.2.floats

/-- All floats of a list are finite. -/
def AllFinite (xs : List Float) : Prop := ∀ x ∈ xs, x.isFinite = true

instance (xs : List Float) : Decidable (AllFinite xs) := by
  unfold AllFinite
  infer_instance

/-! ### Numbers and vectors -/

namespace Json

variable {room : Nat}

/-- A float that is not finite is written as `null`. -/
theorem writtenTree_float (x : Float) :
    writtenTree (.float x) = if x.isFinite then .float x else .null := by
  unfold writtenTree written
  split <;> rfl

/-- And `null` is no float to the reader. -/
theorem float?_writtenTree (x : Float) :
    (writtenTree (.float x)).float? = if x.isFinite then some x else none := by
  rw [writtenTree_float]
  split <;> rfl

/-- What is read under a condition is refused otherwise. -/
theorem reads_needed {α : Type} {p : Prop} [Decidable p] {o : Option α} {a : α}
    (h : o = if p then some a else none) : Reads p (Tree.needed o) a := by
  subst h
  refine ⟨fun hp => ?_, fun hp => ?_⟩
  · rw [if_pos hp]
    rfl
  · rw [if_neg hp]
    rfl

end Json

open Json (writtenTree)

/-- A number is read back if it is finite. -/
theorem Number.number?_tree (n : Number) :
    (writtenTree n.toJson).number? = if AllFinite n.floats then some n else none := by
  cases n with
  | int n =>
    show (Option.map Number.int (ofInt? n.toInt)).or _ = _
    rw [ofInt?_toInt]
    rfl
  | float x =>
    show (writtenTree (.float x)).number? = _
    rw [Json.writtenTree_float]
    by_cases hx : x.isFinite = true
    · rw [if_pos hx, if_pos (by simpa [AllFinite, floats] using hx)]
      rfl
    · rw [if_neg hx, if_neg (by simpa [AllFinite, floats] using hx)]
      rfl

/-- A vector is read back if its components are. -/
theorem Vec3.vector?_tree (v : Vec3) :
    (writtenTree v.toJson).vector? = if AllFinite v.toList then some v else none := by
  unfold toJson
  rw [Json.writtenTree_list, List.map_map]
  show (do return ⟨← (writtenTree (.float v.x)).float?, ← (writtenTree (.float v.y)).float?,
    ← (writtenTree (.float v.z)).float?⟩ : Option Vec3) = _
  rw [Json.float?_writtenTree, Json.float?_writtenTree, Json.float?_writtenTree]
  by_cases hx : v.x.isFinite = true <;> by_cases hy : v.y.isFinite = true
    <;> by_cases hz : v.z.isFinite = true <;> simp [AllFinite, toList, hx, hy, hz]

/-- No list is a number. -/
theorem Vec3.number?_tree (v : Vec3) : (writtenTree v.toJson).number? = none := rfl

/-- No number is a list. -/
theorem Number.vector?_tree (n : Number) : (writtenTree n.toJson).vector? = none := by
  cases n with
  | int n => rfl
  | float x =>
    show (writtenTree (.float x)).vector? = _
    rw [Json.writtenTree_float]
    split <;> rfl

/-- An attribute is read back if its floats are. -/
theorem Attribute.attribute?_tree (attr : Attribute) :
    (writtenTree attr.toJson).attribute? = if AllFinite attr.floats then some attr else none := by
  unfold Tree.attribute?
  cases attr with
  | number n =>
    show (Option.map number (writtenTree n.toJson).number?).or
      (Option.map vector (writtenTree n.toJson).vector?) = if AllFinite n.floats then _ else _
    rw [n.number?_tree, n.vector?_tree]
    split <;> rfl
  | vector v =>
    show (Option.map number (writtenTree v.toJson).number?).or
      (Option.map vector (writtenTree v.toJson).vector?) = if AllFinite v.toList then _ else _
    rw [v.number?_tree, v.vector?_tree]
    split <;> rfl

/-! ### Histograms -/

/-- A count of 64 bits is read back. -/
theorem Json.count?_tree {n : Nat} (hn : n < 2 ^ 64) :
    (writtenTree (.int (Int.ofNat n))).count? = some n := by
  show (if 0 ≤ Int.ofNat n ∧ Int.ofNat n ≤ maxWord then some (Int.ofNat n).toNat else none) = _
  unfold maxWord
  rw [if_pos ⟨Int.natCast_nonneg n, by show (n : Int) ≤ _; omega⟩]
  rfl

/-- So are all counts of a histogram. -/
theorem Histogram.counts?_tree {counts : List Nat} (h : ∀ n ∈ counts, n < 2 ^ 64) :
    (writtenTree (.list (counts.map fun n => .int (Int.ofNat n)))).counts? = some counts := by
  rw [Json.writtenTree_list, List.map_map]
  show (counts.map fun n => writtenTree (.int (Int.ofNat n))).mapM Tree.count? = _
  rw [mapM_eq_some_iff, List.forall₂_map_left_iff, List.forall₂_same]
  exact fun n hn => Json.count?_tree (h n hn)

/-- A histogram is read back if its bounds are finite. -/
theorem Histogram.histogram?_tree {h : Histogram} (hcounts : ∀ n ∈ h.counts, n < 2 ^ 64) :
    (writtenTree h.toJson).histogram?
      = if AllFinite [h.minVal, h.maxVal] then some h else none := by
  have htree : (writtenTree h.toJson).histogram? = (do
      return ⟨← (writtenTree (.list (h.counts.map fun n => .int (Int.ofNat n)))).counts?,
        ← (writtenTree (.float h.minVal)).float?, ← (writtenTree (.float h.maxVal)).float?,
        ← Number.ofInt? h.numBins.toInt⟩) := by
    rfl
  rw [htree, counts?_tree hcounts, Json.float?_writtenTree, Json.float?_writtenTree,
    Number.ofInt?_toInt]
  by_cases hmin : h.minVal.isFinite = true <;> by_cases hmax : h.maxVal.isFinite = true
    <;> simp [AllFinite, hmin, hmax]

/-! ### Payloads -/

/-- **A payload is read back** if its floats are finite. -/
theorem Payload.payload?_tree {p : Payload} (hcounts : ∀ n ∈ p.counts, n < 2 ^ 64)
    (attrs : Named Attribute) :
    Tree.payload? (Value.kind ⟨p, attrs⟩) (p.content?.map writtenTree)
      = if AllFinite p.floats then some p else none := by
  -- One case for each kind. Only numbers can be lost on the way.
  cases p with
  | empty => rfl
  | scalar n =>
    show Option.map scalar (writtenTree n.toJson).number? = if AllFinite n.floats then _ else _
    rw [n.number?_tree]
    split <;> rfl
  | vector v =>
    show Option.map vector (writtenTree v.toJson).vector? = if AllFinite v.toList then _ else _
    rw [v.vector?_tree]
    split <;> rfl
  | boolean b => rfl
  | fieldRef name => rfl
  | histogram h =>
    show Option.map histogram (writtenTree h.toJson).histogram?
      = if AllFinite [h.minVal, h.maxVal] then _ else _
    rw [Histogram.histogram?_tree hcounts]
    split <;> rfl

/-! ### Nesting -/

namespace Json

variable {room : Nat}

/-- A float is never nested too deeply. -/
theorem check_float (x : Float) : (writtenTree (.float x)).check room = .ok () := by
  rw [writtenTree_float]
  split <;> rfl

/-- A list is nested as deeply as its items. -/
theorem checkItems_eq_ok {items : List Tree} (h : ∀ item ∈ items, item.check room = .ok ()) :
    Tree.checkItems room items = .ok () := by
  induction items with
  | nil => rfl
  | cons item rest ih =>
    have hrest := ih fun tree htree => h tree (List.mem_cons_of_mem _ htree)
    show (item.check room >>= fun _ => Tree.checkItems room rest) = _
    rw [h item List.mem_cons_self, hrest]
    rfl

/-- A list of values in which nothing is nested. -/
theorem check_list {α : Type} {f : α → Json} {l : List α}
    (h : ∀ a ∈ l, (writtenTree (f a)).check room = .ok ()) :
    (writtenTree (.list (l.map f))).check (room + 1) = .ok () := by
  have hitems : Tree.checkItems room (l.map fun a => writtenTree (f a)) = .ok () := by
    refine checkItems_eq_ok fun item hitem => ?_
    obtain ⟨a, ha, rfl⟩ := List.mem_map.mp hitem
    exact h a ha
  rw [writtenTree_list, List.map_map]
  show (Tree.checkItems room (l.map fun a => writtenTree (f a)) >>= fun _ => Ending.closed.require)
    = _
  rw [hitems]
  rfl

end Json

/-- A number needs no room for nesting. -/
theorem Number.check_tree (n : Number) (room : Nat) :
    (writtenTree n.toJson).check room = .ok () := by
  cases n with
  | int n => rfl
  | float x => exact Json.check_float x

/-- A vector needs room for its list. -/
theorem Vec3.check_tree (v : Vec3) (room : Nat) :
    (writtenTree v.toJson).check (room + 1) = .ok () :=
  Json.check_list fun x _ => Json.check_float x

/-- So does an attribute. -/
theorem Attribute.check_tree (attr : Attribute) (room : Nat) :
    (writtenTree attr.toJson).check (room + 1) = .ok () := by
  cases attr with
  | number n => exact n.check_tree _
  | vector v => exact v.check_tree room

/-- A histogram needs room for a list in an object. -/
theorem Histogram.check_tree (h : Histogram) (room : Nat) :
    (writtenTree h.toJson).check (room + 2) = .ok () := by
  have hcounts : (writtenTree (.list (h.counts.map fun n => .int (Int.ofNat n)))).check (room + 1)
      = .ok () := Json.check_list fun n _ => rfl
  have hfields : (writtenTree h.toJson).check (room + 2) = (do
      Tree.checkFields (room + 1)
        [(some "counts", writtenTree (.list (h.counts.map fun n => .int (Int.ofNat n)))),
          (some "min_val", writtenTree (.float h.minVal)),
          (some "max_val", writtenTree (.float h.maxVal)),
          (some "num_bins", .int h.numBins.toInt)]
      Json.Ending.closed.require) := by
    rfl
  rw [hfields]
  simp only [Tree.checkFields, hcounts, Json.check_float, Tree.fieldName]
  rfl

/-- In a content at most two lists and objects are nested. -/
theorem Payload.check_content {p : Payload} {c : Json} (h : p.content? = some c) (room : Nat) :
    (writtenTree c).check (room + 2) = .ok () := by
  cases p with
  | empty => cases h
  | scalar n =>
    obtain rfl := Option.some.inj h
    exact n.check_tree _
  | vector v =>
    obtain rfl := Option.some.inj h
    exact v.check_tree _
  | boolean b | fieldRef name =>
    obtain rfl := Option.some.inj h
    rfl
  | histogram h' =>
    obtain rfl := Option.some.inj h
    exact h'.check_tree room

/-- A tree that is not too deep is kept to be read later. -/
theorem Json.readLater_eq_ok {room : Nat} {tree : Tree} (h : tree.check room = .ok ()) :
    tree.readLater room = .ok tree := by
  unfold Tree.readLater
  rw [h]
  rfl

/-! ### Values -/

namespace Value

variable {room : Nat}

/-- The tree of the attributes of a value. -/
def attrsTree (attrs : Named Attribute) : Tree :=
  .object (attrs.entries.map fun e => (some e.1, writtenTree e.2.toJson)) .closed

/-- The attributes are read if all floats in them are finite. -/
theorem reads_attrsTree (attrs : Named Attribute) (room : Nat) :
    Reads (∀ e ∈ attrs.entries, AllFinite e.2.floats)
      ((attrsTree attrs).readAttrs (room + 1)) attrs := by
  let read (tree : Tree) : Except Fault Attribute := do
    let tree ← tree.readLater (room + 1)
    Tree.needed tree.attribute?
  -- An attribute is looked at for its nesting first, and that is never too deep.
  have hread : ∀ attr : Attribute,
      Reads (AllFinite attr.floats) (read (writtenTree attr.toJson)) attr := by
    intro attr
    show Reads _ ((writtenTree attr.toJson).readLater (room + 1) >>= _) _
    rw [Json.readLater_eq_ok (attr.check_tree room)]
    exact Json.reads_needed attr.attribute?_tree
  have hwalk : (attrsTree attrs).readAttrs (room + 1)
      = Tree.walkFields (fun t name tree => do return t.insert name (← read tree)) ∅
          (attrs.entries.map fun e => (some e.1, writtenTree e.2.toJson)) .closed := by
    unfold attrsTree Tree.readAttrs
    dsimp only
    congr 1
    funext attrs name tree
    show (tree.readLater (room + 1) >>= _) = (tree.readLater (room + 1) >>= _) >>= _
    cases tree.readLater (room + 1) <;> rfl
  rw [hwalk]
  exact @Json.reads_walkFields _ read (fun attr => writtenTree attr.toJson)
    (fun attr => AllFinite attr.floats) attrs fun e _ => hread e.2

/-- The fields of a value as they stand in its document. -/
theorem writtenTree_toJson (v : Value) : writtenTree v.toJson
    = .object ((some "type", .string v.kind.tag)
      :: ((v.payload.content?.map writtenTree).toList.map fun tree => (some "value", tree))
      ++ if v.attrs.isEmpty then [] else [(some "attrs", attrsTree v.attrs)]) .closed := by
  have hattrs : writtenTree (.object (v.attrs.entries.map fun e => (e.1, e.2.toJson)))
      = attrsTree v.attrs := by
    rw [Json.writtenTree_object, List.map_map]
    rfl
  unfold toJson
  rw [Json.writtenTree_object, ← hattrs]
  cases v.payload.content? <;> cases v.attrs.isEmpty <;> rfl

/-- What is known of a value when its kind and its content have been read. -/
def headDraft (v : Value) : Draft :=
  ⟨[.string v.kind.tag], (v.payload.content?.map writtenTree).toList, none⟩

/-- The kind and the payload are read before the attributes. -/
theorem walkFields_head (v : Value) (rest : List (Option String × Tree)) :
    Tree.walkFields (Draft.step (room + 2)) {} ((some "type", .string v.kind.tag)
      :: ((v.payload.content?.map writtenTree).toList.map fun tree => (some "value", tree))
      ++ rest) .closed
    = Tree.walkFields (Draft.step (room + 2)) v.headDraft rest .closed := by
  unfold headDraft
  cases h : v.payload.content? with
  | none => rfl
  | some c =>
    show ((writtenTree c).readLater (room + 2) >>= _) >>= _ = _
    rw [Json.readLater_eq_ok (Payload.check_content h room)]
    rfl

/-- At the end the payload is made of the kind and the content. -/
theorem reads_finish? {v : Value} (hcounts : ∀ n ∈ v.payload.counts, n < 2 ^ 64)
    (attrs : Option (Named Attribute)) :
    Reads (AllFinite v.payload.floats)
      (Tree.needed (Draft.finish? { v.headDraft with attrs := attrs }))
      ⟨v.payload, attrs.getD ∅⟩ := by
  -- There is one tag, and at most one content.
  have hkind : (Tree.string v.kind.tag).kind? = some v.kind := v.kind.ofTag?_tag
  have hfinish : Draft.finish? { v.headDraft with attrs := attrs }
      = (Tree.payload? v.kind (v.payload.content?.map writtenTree)).map
          fun payload => ⟨payload, attrs.getD ∅⟩ := by
    unfold Draft.finish? headDraft
    dsimp only
    rw [hkind]
    cases v.payload.content? <;> exact Option.map_eq_bind.symm
  have hpayload : Tree.payload? v.kind (v.payload.content?.map writtenTree) = _ :=
    Payload.payload?_tree hcounts v.attrs
  refine Json.reads_needed ?_
  rw [hfinish, hpayload]
  split <;> rfl

/-- **A value is read back if all floats in it are finite**, and is refused otherwise. -/
theorem reads_tree {v : Value} (hcounts : ∀ n ∈ v.payload.counts, n < 2 ^ 64) (room : Nat) :
    Reads (AllFinite v.floats) (ofTree (room + 3) (writtenTree v.toJson)) v := by
  have hfinite : AllFinite v.floats ↔
      (∀ e ∈ v.attrs.entries, AllFinite e.2.floats) ∧ AllFinite v.payload.floats := by
    unfold AllFinite floats
    simp only [List.mem_append, List.mem_flatMap]
    exact ⟨fun h => ⟨fun e he x hx => h x (.inr ⟨e, he, hx⟩), fun x hx => h x (.inl hx)⟩,
      fun h x hx => hx.elim (h.2 x) fun ⟨e, he, hx⟩ => h.1 e he x hx⟩
  rw [writtenTree_toJson]
  show Reads _ (Tree.walkFields (Draft.step (room + 2)) {} _ .closed >>= _) v
  rw [walkFields_head]
  by_cases hattrs : v.attrs.isEmpty = true
  · -- There are no attributes in the document, and none are in the value that is read.
    have hnone : v.attrs = ∅ := Named.ext_entries (List.isEmpty_iff.mp hattrs)
    rw [if_pos hattrs]
    refine Reads.congr (p := AllFinite v.payload.floats) ?_ ?_
    · have h := reads_finish? hcounts none
      rwa [show Value.mk v.payload (Option.getD none ∅) = v by rw [← hnone]; rfl] at h
    · rw [hfinite, hnone]
      exact ⟨fun h => ⟨nofun, h⟩, fun h => h.2⟩
  · -- The attributes are read first, and the payload when the object has ended.
    rw [if_neg hattrs]
    refine Reads.congr ?_ hfinite.symm
    have hattrs : Draft.step (room + 2) v.headDraft "attrs" (attrsTree v.attrs)
        = (fun attrs => { v.headDraft with attrs := some attrs })
          <$> (attrsTree v.attrs).readAttrs (room + 1) := by
      show (do return { v.headDraft with attrs :=
        ← some <$> (attrsTree v.attrs).readAttrs (room + 1) } : Except Fault Draft) = _
      cases (attrsTree v.attrs).readAttrs (room + 1) <;> rfl
    rw [Json.walkFields_singleton, hattrs]
    exact ((reads_attrsTree v.attrs room).map _).bind (reads_finish? hcounts (some v.attrs))

end Value

/-! ### Numbers in documents -/

section Legible

open Json (AllReadBack Legible)

/-- The numbers of a number are legible if its float is read back. -/
theorem Number.legible_toJson {n : Number} (h : AllReadBack n.floats) :
    Legible n.toJson.numbers := by
  cases n with
  | int n =>
    have hlow := n.le_toInt
    have hhigh := n.toInt_lt
    refine Json.legible_int ?_
    unfold Json.isWord Json.maxWord
    simp only [Bool.and_eq_true, decide_eq_true_eq]
    omega
  | float x => exact Json.legible_float (h x List.mem_cons_self)

/-- The same for a vector. -/
theorem Vec3.legible_toJson {v : Vec3} (h : AllReadBack v.toList) : Legible v.toJson.numbers := by
  refine Json.legible_list fun item hitem => ?_
  obtain ⟨x, hx, rfl⟩ := List.mem_map.mp hitem
  exact Json.legible_float (h x hx)

/-- The same for an attribute. -/
theorem Attribute.legible_toJson {attr : Attribute} (h : AllReadBack attr.floats) :
    Legible attr.toJson.numbers := by
  cases attr with
  | number n => exact Number.legible_toJson h
  | vector v => exact Vec3.legible_toJson h

/-- The same for a histogram, whose counts are legible as they are. -/
theorem Histogram.legible_toJson {h : Histogram} (hcounts : ∀ n ∈ h.counts, n < 2 ^ 64)
    (hfloats : AllReadBack [h.minVal, h.maxVal]) : Legible h.toJson.numbers := by
  refine Json.legible_object (List.forall_mem_cons.mpr ⟨?_, List.forall_mem_cons.mpr ⟨?_,
    List.forall_mem_cons.mpr ⟨?_, List.forall_mem_singleton.mpr ?_⟩⟩⟩)
  · refine Json.legible_list fun item hitem => ?_
    obtain ⟨n, hn, rfl⟩ := List.mem_map.mp hitem
    have hword := hcounts n hn
    refine Json.legible_int ?_
    unfold Json.isWord Json.maxWord
    simp only [Bool.and_eq_true, decide_eq_true_eq, Int.ofNat_eq_natCast]
    omega
  · exact Json.legible_float (hfloats h.minVal List.mem_cons_self)
  · exact Json.legible_float (hfloats h.maxVal (List.mem_cons_of_mem _ List.mem_cons_self))
  · exact Number.legible_toJson (n := .int h.numBins) nofun

/-- The same for a payload of any kind. -/
theorem Payload.legible_content {p : Payload} (hcounts : ∀ n ∈ p.counts, n < 2 ^ 64)
    (hfloats : AllReadBack p.floats) {c : Json} (hc : p.content? = some c) :
    Legible c.numbers := by
  cases p with
  | empty => cases hc
  | scalar n =>
    obtain rfl := Option.some.inj hc
    exact Number.legible_toJson hfloats
  | vector v =>
    obtain rfl := Option.some.inj hc
    exact Vec3.legible_toJson hfloats
  | boolean b | fieldRef name =>
    obtain rfl := Option.some.inj hc
    exact Json.legible_nil
  | histogram h =>
    obtain rfl := Option.some.inj hc
    exact Histogram.legible_toJson hcounts hfloats

/-- All numbers in the document of a value can be read back. -/
theorem Value.legible_toJson {v : Value} (hcounts : ∀ n ∈ v.payload.counts, n < 2 ^ 64)
    (hfloats : AllReadBack v.floats) : Legible v.toJson.numbers := by
  have hpayload : AllReadBack v.payload.floats :=
    fun x hx => hfloats x (List.mem_append_left _ hx)
  have hattr : ∀ e ∈ v.attrs.entries, AllReadBack e.2.floats := fun e he x hx =>
    hfloats x (List.mem_append_right _ (List.mem_flatMap.mpr ⟨e, he, hx⟩))
  refine Json.legible_object (List.forall_mem_cons.mpr ⟨Json.legible_nil, fun field hfield => ?_⟩)
  rcases List.mem_append.mp hfield with hcontent | hattrs
  · obtain ⟨c, hc, rfl⟩ := Option.map_eq_some_iff.mp (Option.mem_toList.mp hcontent)
    exact Payload.legible_content hcounts hpayload hc
  · split at hattrs
    · cases hattrs
    · obtain rfl := List.mem_singleton.mp hattrs
      refine Json.legible_object fun field hfield => ?_
      obtain ⟨e, he, rfl⟩ := List.mem_map.mp hfield
      exact Attribute.legible_toJson (hattr e he)

/-- A value is read from its text if all floats in it are finite, and the text is refused
    otherwise. -/
theorem Value.reads_text {v : Value} (hcounts : ∀ n ∈ v.payload.counts, n < 2 ^ 64)
    (hfloats : AllReadBack v.floats) : Reads (AllFinite v.floats) (ofText v.text) v := by
  unfold ofText text
  rw [Json.read_ofText_render (legible_toJson hcounts hfloats)]
  exact reads_tree hcounts 124

end Legible

end MeshExpr
