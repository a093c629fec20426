import MeshExpr.Graph.Document
import MeshExpr.Proofs.Json.Stable

namespace MeshExpr

open Json (Tree Fault Stable Yields AllReadBack Legible writtenTree)

/-!
# Graphs that were read are read again

The text that is written for a graph has all fields in order. Only in the parameters there is
anything else than names, and they are stable where the graph was read, for a record takes up as
much nesting when it is a list as when it is an object.

* `StableParams` — all parameters are stable. `Graph.yields_ofTree` — they are in graphs that are
  read.
* `Graph.ofTree_tree` — a graph with stable parameters is read from its tree.
* `Graph.ofText_text` — **a graph that was read from some text is read from its own text.**
-/

variable {room : Nat}

/-! ### Parameters -/

/-- All parameters are stable. -/
def StableParams (room : Nat) (params : RawParams) : Prop :=
  ∀ e ∈ params.entries, Stable room e.2

/-- Parameters that are left out are none, and stable as that. -/
theorem stableParams_getD {params : Option RawParams}
    (h : ∀ p, params = some p → StableParams room p) : StableParams room (params.getD ∅) := by
  cases params with
  | none => exact nofun
  | some p => exact h p rfl

/-- Parameters that are read from a text are stable. -/
theorem yields_readParams : Yields (readParams (room + 1)) (StableParams room) := by
  intro tree params hplain h
  cases tree with
  | object fields ending =>
    have hfields := Json.Tree.plainFields_iff.mp hplain
    refine Json.invariant_of_walkFields (fun params name tree params' hmem hparams hstep => ?_)
      (nofun : StableParams room ∅) h
    obtain ⟨j, hj, hinsert⟩ := bind_eq_ok_iff.mp hstep
    obtain rfl := Except.ok.inj hinsert
    intro e he
    rcases mem_fileEntry he with rfl | he
    · exact Json.stable_of_json (hfields _ hmem) hj
    · exact hparams e he
  | _ => cases h

/-- Stable parameters are read from their tree. -/
theorem readParams_tree {params : RawParams} (h : StableParams room params) :
    readParams (room + 1) (writtenTree (.table params)) = .ok params := by
  have hreads := @Json.reads_walkFields _ (Tree.json room) writtenTree (fun _ => True) params
    fun e he => Json.reads_true (h e he).again
  unfold Json.table
  rw [Json.writtenTree_object]
  exact hreads.kept fun _ _ => trivial

/-! ### Nodes and edges -/

namespace Node

/-- The parameters are stable, if they have been read. -/
def Draft.IsStable (room : Nat) (d : Draft) : Prop := ∀ p, d.params = some p → StableParams room p

/-- A node of which nothing has been read is stable. -/
theorem Draft.isStable_start : ({} : Draft).IsStable room := fun _ h => nomatch h

/-- It stays so with every field that is read. -/
theorem Draft.isStable_step {d d' : Draft} {field : String} {tree : Tree} (hplain : tree.Plain)
    (hd : d.IsStable room) (h : d.step (room + 1) field tree = .ok d') : d'.IsStable room := by
  unfold step at h
  split at h
  case h_3 =>
    obtain ⟨params, honce, hset⟩ := bind_eq_ok_iff.mp h
    obtain rfl := Except.ok.inj hset
    exact yields_readParams.once hplain honce
  -- No other field has to do with the parameters.
  all_goals
    obtain ⟨_, -, hset⟩ := bind_eq_ok_iff.mp h
    obtain rfl := Except.ok.inj hset
    exact hd

/-- **Nodes that are read from a text are stable.** -/
theorem yields_ofTree : Yields (ofTree (room + 2)) fun n => StableParams room n.params := by
  intro tree n hplain h
  cases tree with
  | object fields ending =>
    have hfields := Json.Tree.plainFields_iff.mp hplain
    obtain ⟨d, hd, h⟩ := bind_eq_ok_iff.mp h
    -- Whatever fields there are, and in which order: each step keeps what was read stable.
    have hdraft : d.IsStable room := Json.invariant_of_walkFields
      (fun _ _ _ _ hmem => Draft.isStable_step (hfields _ hmem)) Draft.isStable_start hd
    obtain ⟨_, -, h⟩ := bind_eq_ok_iff.mp h
    obtain ⟨_, -, hn⟩ := bind_eq_ok_iff.mp h
    obtain rfl := Except.ok.inj hn
    exact stableParams_getD hdraft
  | list items ending =>
    obtain ⟨⟨name, items₁⟩, hname, h⟩ := bind_eq_ok_iff.mp h
    -- A list is read item by item, and what is left of it stays plain.
    have hplain₁ := ((Json.yields_true _).nextItem hplain hname).2
    obtain ⟨_, -, h⟩ := bind_eq_ok_iff.mp h
    obtain ⟨⟨filter, items₂⟩, hfilter, h⟩ := bind_eq_ok_iff.mp h
    have hplain₂ := ((Json.yields_true _).nextItem hplain₁ hfilter).2
    obtain ⟨_, -, h⟩ := bind_eq_ok_iff.mp h
    obtain ⟨⟨params, items₃⟩, hparams, h⟩ := bind_eq_ok_iff.mp h
    obtain ⟨_, -, hn⟩ := bind_eq_ok_iff.mp h
    obtain rfl := Except.ok.inj hn
    exact stableParams_getD (yields_readParams.nextItem hplain₂ hparams).1
  | _ => cases h

/-- A node with stable parameters is read from its tree. -/
theorem ofTree_tree {n : Node} (h : StableParams room n.params) :
    ofTree (room + 2) (writtenTree n.toJson) = .ok n := by
  have hofTree : ofTree (room + 2) (writtenTree n.toJson) = (do
      let params ← readParams (room + 1) (writtenTree (.table n.params))
      return ⟨n.name, n.filter, params⟩) := by
    unfold toJson
    rw [Json.writtenTree_object]
    show Tree.walkFields (Draft.step (room + 1)) ⟨some n.name, some n.filter, none⟩
      [(some "params", writtenTree (.table n.params))] .closed >>= _ = _
    rw [Json.walkFields_singleton]
    show (some <$> readParams (room + 1) (writtenTree (.table n.params)) >>= _) >>= _ = _
    cases readParams (room + 1) (writtenTree (.table n.params)) <;> rfl
  rw [hofTree, readParams_tree h]
  rfl

end Node

/-- An edge is read from its tree. -/
theorem Edge.ofTree_tree (e : Edge) : ofTree (writtenTree e.toJson) = .ok e := rfl

/-! ### Graphs -/

namespace Graph

/-- All parameters in the graph are stable. -/
def IsStable (room : Nat) (g : Graph) : Prop := ∀ n ∈ g.nodes, StableParams room n.params

/-- All parameters in the nodes are stable, if these have been read. -/
def Draft.IsStable (room : Nat) (d : Draft) : Prop :=
  ∀ ns, d.nodes = some ns → ∀ n ∈ ns, StableParams room n.params

/-- A graph of which nothing has been read is stable. -/
theorem Draft.isStable_start : ({} : Draft).IsStable room := fun _ h => nomatch h

/-- It stays so with every field that is read. -/
theorem Draft.isStable_step {d d' : Draft} {field : String} {tree : Tree} (hplain : tree.Plain)
    (hd : d.IsStable room) (h : d.step (room + 3) field tree = .ok d') : d'.IsStable room := by
  unfold step at h
  split at h
  case h_2 =>
    obtain ⟨nodes, honce, hset⟩ := bind_eq_ok_iff.mp h
    obtain rfl := Except.ok.inj hset
    exact Node.yields_ofTree.readItems.once hplain honce
  -- No other field has to do with the nodes.
  all_goals
    obtain ⟨_, -, hset⟩ := bind_eq_ok_iff.mp h
    obtain rfl := Except.ok.inj hset
    exact hd

/-- **Graphs that are read from a text are stable.** -/
theorem yields_ofTree : Yields (ofTree (room + 4)) (IsStable room) := by
  intro tree g hplain h
  cases tree with
  | object fields ending =>
    have hfields := Json.Tree.plainFields_iff.mp hplain
    obtain ⟨d, hd, h⟩ := bind_eq_ok_iff.mp h
    -- As for a node, with the nodes in the place of the parameters.
    have hdraft : d.IsStable room := Json.invariant_of_walkFields
      (fun _ _ _ _ hmem => Draft.isStable_step (hfields _ hmem)) Draft.isStable_start hd
    obtain ⟨_, -, h⟩ := bind_eq_ok_iff.mp h
    obtain ⟨ns, hns, h⟩ := bind_eq_ok_iff.mp h
    obtain ⟨_, -, hg⟩ := bind_eq_ok_iff.mp h
    obtain rfl := Except.ok.inj hg
    exact hdraft ns (Json.eq_some_of_needed hns)
  | list items ending =>
    obtain ⟨⟨name, items₁⟩, hname, h⟩ := bind_eq_ok_iff.mp h
    have hplain₁ := ((Json.yields_true _).nextItem hplain hname).2
    obtain ⟨_, -, h⟩ := bind_eq_ok_iff.mp h
    obtain ⟨⟨nodes, items₂⟩, hnodes, h⟩ := bind_eq_ok_iff.mp h
    have hstable := (Node.yields_ofTree.readItems.nextItem hplain₁ hnodes).1
    obtain ⟨ns, hns, h⟩ := bind_eq_ok_iff.mp h
    obtain ⟨⟨edges, items₃⟩, -, h⟩ := bind_eq_ok_iff.mp h
    obtain ⟨⟨output, items₄⟩, -, h⟩ := bind_eq_ok_iff.mp h
    obtain ⟨_, -, h⟩ := bind_eq_ok_iff.mp h
    obtain ⟨_, -, hg⟩ := bind_eq_ok_iff.mp h
    obtain rfl := Except.ok.inj hg
    exact hstable ns (Json.eq_some_of_needed hns)
  | _ => cases h

/-- A graph with stable parameters is read from its tree. -/
theorem ofTree_tree {g : Graph} (h : g.IsStable room) :
    ofTree (room + 4) (writtenTree g.toJson) = .ok g := by
  have hnodes : Tree.readItems (Node.ofTree (room + 2))
      (writtenTree (.list (g.nodes.map Node.toJson))) = .ok g.nodes :=
    Json.readItems_writtenTree fun n hn => Node.ofTree_tree (h n hn)
  have hedges : Tree.readItems Edge.ofTree (writtenTree (.list (g.edges.map Edge.toJson)))
      = .ok g.edges := Json.readItems_writtenTree fun e _ => e.ofTree_tree
  have hstepNodes : Draft.step (room + 3) ⟨some g.name, none, none, none⟩ "nodes"
      (writtenTree (.list (g.nodes.map Node.toJson)))
      = .ok ⟨some g.name, some g.nodes, none, none⟩ := by
    show (some <$> Tree.readItems (Node.ofTree (room + 2)) _ >>= _) = _
    rw [hnodes]
    rfl
  have hstepEdges : Draft.step (room + 3) ⟨some g.name, some g.nodes, none, none⟩ "edges"
      (writtenTree (.list (g.edges.map Edge.toJson)))
      = .ok ⟨some g.name, some g.nodes, some g.edges, none⟩ := by
    show (some <$> Tree.readItems Edge.ofTree _ >>= _) = _
    rw [hedges]
    rfl
  unfold toJson
  rw [Json.writtenTree_object]
  -- Field by field; the name and the output need no lemma.
  show Tree.walkFields (Draft.step (room + 3)) ⟨some g.name, none, none, none⟩
    [(some "nodes", writtenTree (.list (g.nodes.map Node.toJson))),
      (some "edges", writtenTree (.list (g.edges.map Edge.toJson))),
      (some "output", .string g.output)] .closed >>= _ = _
  rw [Json.walkFields_cons, hstepNodes]
  show Tree.walkFields (Draft.step (room + 3)) ⟨some g.name, some g.nodes, none, none⟩
    [(some "edges", writtenTree (.list (g.edges.map Edge.toJson))),
      (some "output", .string g.output)] .closed >>= _ = _
  rw [Json.walkFields_cons, hstepEdges]
  rfl

/-! ### Texts -/

/-- The floats in the parameters of a graph. -/
def floats (g : Graph) : List Float :=
  g.nodes.flatMap fun n => n.params.entries.flatMap fun e => e.2.floats

/-- The floats of a graph stand in the parameters of its nodes. -/
theorem mem_floats {g : Graph} {x : Float} :
    x ∈ g.floats ↔ ∃ n ∈ g.nodes, ∃ e ∈ n.params.entries, x ∈ e.2.floats := by
  unfold floats
  simp only [List.mem_flatMap]

/-- All numbers in the text of a graph can be read back. -/
theorem legible_toJson {g : Graph} (h : g.IsStable room) (hfloats : AllReadBack g.floats) :
    Legible g.toJson.numbers := by
  have hnodes : Legible (Json.numbers (.list (g.nodes.map Node.toJson))) := by
    refine Json.legible_list fun item hitem => ?_
    obtain ⟨n, hn, rfl⟩ := List.mem_map.mp hitem
    have hparams : Legible (Json.table n.params).numbers := Json.legible_object fun e he =>
      (h n hn e he).legible fun x hx => hfloats x (mem_floats.mpr ⟨n, hn, e, he, hx⟩)
    exact Json.legible_object (List.forall_mem_cons.mpr ⟨Json.legible_nil,
      List.forall_mem_cons.mpr ⟨Json.legible_nil, List.forall_mem_singleton.mpr hparams⟩⟩)
  -- Edges consist of strings.
  have hedges : Legible (Json.numbers (.list (g.edges.map Edge.toJson))) := by
    refine Json.legible_list fun item hitem => ?_
    obtain ⟨e, -, rfl⟩ := List.mem_map.mp hitem
    exact Json.legible_nil
  exact Json.legible_object (List.forall_mem_cons.mpr ⟨Json.legible_nil,
    List.forall_mem_cons.mpr ⟨hnodes, List.forall_mem_cons.mpr ⟨hedges,
      List.forall_mem_singleton.mpr Json.legible_nil⟩⟩⟩)

/-- **A graph that was read from some text is read from its own text**, if the floats in it are read
    back. -/
theorem ofText_text {text : String} {g : Graph} (h : ofText text = .ok g)
    (hfloats : AllReadBack g.floats) : ofText g.text = .ok g := by
  have hstable : g.IsStable 123 := yields_ofTree.of_text h
  unfold ofText Graph.text
  rw [Json.read_ofText_render (legible_toJson hstable hfloats)]
  exact ofTree_tree hstable

end Graph

end MeshExpr
