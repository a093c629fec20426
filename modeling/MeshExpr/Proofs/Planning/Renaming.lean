import MeshExpr.Proofs.Planning.Layout
import Mathlib.Data.Set.Function

namespace MeshExpr

/-!
# Other names and another order of the edges

A graph can be stated again with other names for its nodes and with its edges in another order. As
long as different names stay different, this makes no difference to planning but for the names
themselves.

* `Graph.Restated` — what it is to state a graph again, and `Graph.Restated.symm` — a graph that was
  stated again can be stated as before.
* `Graph.Restated.exists_wired` — what the phases find in the one graph they find in the other.
* `Graph.Restated.plan_eq` and `Graph.Restated.exists_plan_iff` — the plans and their counts.
-/

/-! ### Names -/

/-- A node under another name. -/
def Node.rename (f : String → String) (node : Node) : Node := { node with name := f node.name }

/-- An edge between nodes under other names. -/
def Edge.rename (f : String → String) (e : Edge) : Edge := ⟨f e.source, f e.target, e.port⟩

/-- A node of a plan under another name. -/
def PlannedNode.rename (f : String → String) (node : PlannedNode) : PlannedNode :=
  { node with name := f node.name }

/-- A plan with other names for its nodes. -/
def Plan.rename (f : String → String) (p : Plan) : Plan :=
  { p with nodes := p.nodes.map (·.rename f) }

namespace Graph

/-- All names that a graph uses for nodes, be they declared or not. -/
def mentioned (g : Graph) : List String :=
  g.names ++ g.output :: g.edges.flatMap fun e => [e.source, e.target]

/-- Both ends of an edge are mentioned. -/
theorem mem_mentioned_of_edge {g : Graph} {e : Edge} (he : e ∈ g.edges) :
    e.source ∈ g.mentioned ∧ e.target ∈ g.mentioned := by
  have hends : ∀ name ∈ [e.source, e.target], name ∈ g.mentioned := fun name hname =>
    List.mem_append_right _ (List.mem_cons_of_mem _ (List.mem_flatMap.mpr ⟨e, he, hname⟩))
  exact ⟨hends _ (by simp), hends _ (by simp)⟩

/-- The second graph is the first one, with other names for the nodes and the edges in any order.
    Different names have stayed different. -/
structure Restated (f : String → String) (g g' : Graph) : Prop where
  name_eq : g'.name = g.name
  nodes_eq : g'.nodes = g.nodes.map (·.rename f)
  edges_perm : g'.edges.Perm (g.edges.map (·.rename f))
  output_eq : g'.output = f g.output
  injOn : Set.InjOn f {name | name ∈ g.mentioned}

variable {f : String → String} {g g' : Graph}

namespace Restated

/-- The names are renamed in place. -/
theorem names_eq (h : Restated f g g') : g'.names = g.names.map f := by
  unfold names
  rw [h.nodes_eq, List.map_map, List.map_map]
  rfl

/-- The restated graph has as many nodes. -/
theorem length_nodes (h : Restated f g g') : g'.nodes.length = g.nodes.length := by
  rw [h.nodes_eq, List.length_map]

/-- What is mentioned is renamed, up to its order. -/
theorem mentioned_perm (h : Restated f g g') : g'.mentioned.Perm (g.mentioned.map f) := by
  unfold mentioned
  rw [h.names_eq, h.output_eq, List.map_append, List.map_cons]
  refine .append_left _ (.cons _ ((h.edges_perm.flatMap_right _).trans (.of_eq ?_)))
  rw [List.map_flatMap, List.flatMap_map]
  rfl

/-- A restated graph can be stated again with the names of before. -/
theorem symm (h : Restated f g g') : ∃ f', Restated f' g' g := by
  -- Only the names that are mentioned have to come back.
  let f' := Function.invFunOn f {name | name ∈ g.mentioned}
  have hinv : ∀ name ∈ g.mentioned, f' (f name) = name := h.injOn.leftInvOn_invFunOn
  have hnode : ∀ node ∈ g.nodes, (node.rename f).rename f' = node := fun node hnode => by
    have hname := hinv _ (List.mem_append_left _ (List.mem_map_of_mem hnode))
    simp [Node.rename, hname]
  have hedge : ∀ e ∈ g.edges, (e.rename f).rename f' = e := fun e he => by
    obtain ⟨hsource, htarget⟩ := mem_mentioned_of_edge he
    simp [Edge.rename, hinv _ hsource, hinv _ htarget]
  refine ⟨f', h.name_eq.symm, ?_, ?_, ?_, ?_⟩
  · rw [h.nodes_eq, List.map_map]
    exact ((List.map_congr_left hnode).trans (List.map_id' _)).symm
  · refine .trans (.of_eq ?_) (h.edges_perm.map (·.rename f')).symm
    rw [List.map_map]
    exact ((List.map_congr_left hedge).trans (List.map_id' _)).symm
  · rw [h.output_eq]
    exact (hinv _ (List.mem_append_right _ List.mem_cons_self)).symm
  · intro a ha b hb hsame
    obtain ⟨a', ha', rfl⟩ := List.mem_map.mp (h.mentioned_perm.mem_iff.mp ha)
    obtain ⟨b', hb', rfl⟩ := List.mem_map.mp (h.mentioned_perm.mem_iff.mp hb)
    rw [hinv a' ha', hinv b' hb'] at hsame
    rw [hsame]

/-! ### Phases -/

/-- An edge becomes the same wire under all names. -/
theorem lays (h : Restated f g g') {filters : List Filter} {e : Edge} {w : Wire}
    (hlays : g.Lays filters e w) : g'.Lays filters (e.rename f) w where
  source := by rw [h.names_eq, List.getElem?_map, hlays.source]; rfl
  target := by rw [h.names_eq, List.getElem?_map, hlays.target]; rfl
  slot := hlays.slot

/-- The filters are found as before. -/
theorem filters_eq (h : Restated f g g') {filters : List Filter}
    (hfilters : g.filters = .ok filters) : g'.filters = .ok filters := by
  obtain ⟨hnodup, hnames⟩ := filters_eq_ok_iff.mp hfilters
  refine filters_eq_ok_iff.mpr ⟨?_, ?_⟩
  · rw [h.names_eq]
    refine hnodup.map_on fun a ha b hb => h.injOn ?_ ?_
    · exact List.mem_append_left _ ha
    · exact List.mem_append_left _ hb
  · rw [hnames, h.nodes_eq, List.map_map]
    rfl

/-- The parameters are accepted as before. -/
theorem params_eq (h : Restated f g g') {filters : List Filter} {params : List Param}
    (hparams : g.params filters = .ok params) : g'.params filters = .ok params := by
  rw [params_eq_ok_iff] at hparams ⊢
  rw [h.nodes_eq, List.zip_map_left, List.forall₂_map_left_iff]
  exact hparams

/-- The wires of the one graph are those of the other, in the order of its edges. -/
theorem exists_wires (h : Restated f g g') (l : g.Wired) : ∃ wires, g'.wires l.filters = .ok wires
    ∧ wires.Perm l.wires := by
  have hlays : List.Forall₂ (g'.Lays l.filters) (g.edges.map (·.rename f)) l.wires :=
    List.forall₂_map_left_iff.mpr (l.lays.imp fun _ _ => h.lays)
  -- The wires follow their edges into the other order.
  obtain ⟨wires, hwires, hperm⟩ := List.perm_comp_forall₂ h.edges_perm hlays
  have hfilters := h.filters_eq l.filters_eq
  have hlen : l.filters.length = g'.nodes.length := by rw [h.length_nodes, l.length_filters]
  refine ⟨wires, (wires_eq_ok_iff (filters_eq_ok_iff.mp hfilters).1 hlen).mpr ⟨hwires, ?_⟩, hperm⟩
  exact (hperm.map Wire.place).nodup_iff.mpr l.places_nodup

/-- Planning finds the same in both graphs. -/
theorem exists_wired (h : Restated f g g') (l : g.Wired) :
    ∃ l' : g'.Wired, l'.filters = l.filters ∧ l'.params = l.params ∧ l'.output = l.output
      ∧ l'.wiring = l.wiring := by
  have hfilters := h.filters_eq l.filters_eq
  have hnames := (filters_eq_ok_iff.mp hfilters).1
  have hlen : l.filters.length = g'.nodes.length := by rw [h.length_nodes, l.length_filters]
  obtain ⟨wires, hwires, hperm⟩ := h.exists_wires l
  have houtput : g'.nodeId g'.output = .ok l.output := by
    rw [nodeId_eq_ok_iff hnames, h.names_eq, h.output_eq, List.getElem?_map,
      l.getElem?_names_output]
    rfl
  have hwiring : g'.inputs l.filters wires = .ok l.wiring := by
    have hplaces := ((wires_eq_ok_iff hnames hlen).mp hwires).2
    obtain ⟨hlength, hinputs⟩ := (inputs_eq_ok_iff l.length_filters l.places_nodup).mp l.wiring_eq
    -- What counts for the inputs is which wires there are, not in which order.
    rw [inputs_eq_ok_iff hlen hplaces, h.length_nodes]
    simp only [hperm.mem_iff]
    exact ⟨hlength, hinputs⟩
  have hne : g'.nodes ≠ [] := by
    rw [h.nodes_eq]
    simpa using l.nodes_ne_nil
  exact ⟨⟨l.filters, l.params, l.output, wires, l.wiring, hne, hfilters, h.params_eq l.params_eq,
    houtput, hwires, hwiring⟩, rfl, rfl, rfl, rfl⟩

/-- The nodes of the plan are the same up to their names. -/
theorem plannedNodes_eq (h : Restated f g g') (filters : List Filter) (params : List Param)
    (wiring : Wiring) : g'.plannedNodes filters params wiring
      = (g.plannedNodes filters params wiring).map (·.rename f) := by
  unfold plannedNodes
  rw [h.nodes_eq, List.zip_map_left, List.zipIdx_map, List.map_map, List.map_map]
  rfl

/-- **The restated graph has the same plan up to the names of its nodes, with the same counts.** -/
theorem plan_eq (h : Restated f g g') {p : Plan} {m : Manifest} (hplan : g.plan = .ok (p, m)) :
    g'.plan = .ok (p.rename f, m) := by
  obtain ⟨l, hl⟩ := plan_eq_ok_iff.mp hplan
  obtain ⟨rfl, rfl⟩ := Prod.mk.inj hl
  obtain ⟨l', hfilters, hparams, houtput, hwiring⟩ := h.exists_wired l.toWired
  have horder : g'.orderOf l'.wiring = .ok l.order := by
    rw [orderOf_eq_ok_iff, hwiring, ← orderOf_eq_ok_iff]
    exact l.order_eq
  have hedges : g'.edges.length = g.edges.length := by
    rw [h.edges_perm.length_eq, List.length_map]
  refine plan_eq_ok_iff.mpr ⟨⟨l', l.order, horder⟩, ?_⟩
  simp only [Layout.plan, Layout.manifest, Plan.rename, h.name_eq, h.plannedNodes_eq,
    h.length_nodes, hedges, hfilters, hparams, houtput, hwiring]

/-- One of the graphs has a plan if the other one has. -/
theorem exists_plan_iff (h : Restated f g g') :
    (∃ planned, g'.plan = .ok planned) ↔ ∃ planned, g.plan = .ok planned := by
  constructor
  · rintro ⟨⟨p, m⟩, hplan⟩
    obtain ⟨f', hback⟩ := h.symm
    exact ⟨_, hback.plan_eq hplan⟩
  · rintro ⟨⟨p, m⟩, hplan⟩
    exact ⟨_, h.plan_eq hplan⟩

end Restated

end Graph

end MeshExpr
