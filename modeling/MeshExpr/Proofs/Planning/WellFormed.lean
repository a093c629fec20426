import MeshExpr.Proofs.Planning.Layout

namespace MeshExpr.Graph

open Relation

/-!
# Graphs that can be planned

`WellFormed` lists what a graph must fulfil to have a plan, in terms of names and edges alone: no
positions, no wires, no order of the checks. The planner accepts exactly these graphs.

* `Wired.feeds_iff` — one node feeds another one by its name exactly if it does so by its place, and
  `Wired.acyclic_iff` — hence the names have a cycle exactly if the places have one.
* `Layout.wellFormed` — soundness: a graph with a plan is well-formed.
* `WellFormed.exists_layout` — completeness: each phase succeeds on a well-formed graph.
* `plan_isOk_iff_wellFormed` — both together.
-/

variable {g : Graph}

/-- Whether the output of one node is wired to a port of another one, by their names. -/
def Feeds (g : Graph) (producer consumer : String) : Prop :=
  ∃ e ∈ g.edges, e.source = producer ∧ e.target = consumer

/-- How many edges end in a port of a node. -/
def fanIn (g : Graph) (node port : String) : Nat :=
  g.edges.countP fun e => e.target == node && e.port == port

/-- What a graph must fulfil to have a plan. -/
structure WellFormed (g : Graph) : Prop where
  /-- There is a node. -/
  nodes_ne_nil : g.nodes ≠ []
  /-- No name is given twice. -/
  names_nodup : g.names.Nodup
  /-- Every node names a filter of the catalog. -/
  registered : ∀ node ∈ g.nodes, ∃ filter : Filter, filter.name = node.filter
  /-- Every node has the parameters that its filter wants. -/
  accepted : ∀ node ∈ g.nodes, ∀ filter : Filter, filter.name = node.filter →
    ∃ param, filter.paramSpec.check node.params = .ok param
  /-- The output is a node. -/
  output_mem : g.output ∈ g.names
  /-- Every edge begins at a node. -/
  source_mem : ∀ e ∈ g.edges, e.source ∈ g.names
  /-- Every edge ends at a port of a node. -/
  target_mem : ∀ e ∈ g.edges, ∃ node ∈ g.nodes, node.name = e.target
    ∧ ∃ filter : Filter, filter.name = node.filter ∧ e.port ∈ filter.portList
  /-- Exactly one edge ends at every port of every node, be the port optional or not. -/
  wired : ∀ node ∈ g.nodes, ∀ filter : Filter, filter.name = node.filter →
    ∀ port ∈ filter.portList, g.fanIn node.name port = 1
  /-- No node feeds itself, be it directly or through other nodes. -/
  acyclic : ∀ name, ¬ TransGen g.Feeds name name

/-! ### Soundness -/

/-- An edge between two names is a wire between their places. -/
theorem Wired.feeds_iff (l : g.Wired) {producer consumer : String} :
    g.Feeds producer consumer ↔ ∃ i node, g.names[i]? = some producer
      ∧ g.names[node]? = some consumer ∧ l.wiring.Feeds i node := by
  constructor
  · rintro ⟨e, he, rfl, rfl⟩
    obtain ⟨i, node, slot, hlays, hinput⟩ := l.mem_edges_iff.mp he
    exact ⟨i, node, hlays.source, hlays.target, List.mem_of_getElem? hinput⟩
  · rintro ⟨i, node, hproducer, hconsumer, hfeeds⟩
    obtain ⟨e, he, hsource, htarget⟩ := l.exists_edge hfeeds
    exact ⟨e, he, Option.some.inj (hsource.symm.trans hproducer),
      Option.some.inj (htarget.symm.trans hconsumer)⟩

/-- An edge between two names joins their places. -/
theorem Wired.feeds_idxOf (l : g.Wired) {producer consumer : String}
    (h : g.Feeds producer consumer) :
    l.wiring.Feeds (g.names.idxOf producer) (g.names.idxOf consumer) := by
  obtain ⟨i, node, hproducer, hconsumer, hfeeds⟩ := l.feeds_iff.mp h
  obtain ⟨hi, rfl⟩ := List.getElem?_eq_some_iff.mp hproducer
  obtain ⟨hnode, rfl⟩ := List.getElem?_eq_some_iff.mp hconsumer
  rwa [l.names_nodup.idxOf_getElem, l.names_nodup.idxOf_getElem]

/-- What joins two places is an edge between their names. -/
theorem Wired.feeds_getD (l : g.Wired) {i node : Nat} (h : l.wiring.Feeds i node) :
    g.Feeds (g.names[i]?.getD "") (g.names[node]?.getD "") := by
  obtain ⟨e, he, hsource, htarget⟩ := l.exists_edge h
  rw [hsource, htarget]
  exact ⟨e, he, rfl, rfl⟩

/-- The names have a cycle exactly if their places have one. -/
theorem Wired.acyclic_iff (l : g.Wired) :
    l.wiring.Acyclic ↔ ∀ name, ¬ TransGen g.Feeds name name :=
  ⟨fun h _ hcycle => h _ (hcycle.lift g.names.idxOf fun _ _ => l.feeds_idxOf),
    fun h _ hcycle => h _ (hcycle.lift (g.names[·]?.getD "") fun _ _ => l.feeds_getD)⟩

namespace Layout

variable (l : g.Layout)

/-- Exactly one edge ends at every port of every node. -/
theorem fanIn_eq_one (l : g.Layout) {node : Node} (hnode : node ∈ g.nodes) {filter : Filter}
    (hfilter : filter.name = node.filter) {port : String} (hport : port ∈ filter.portList) :
    g.fanIn node.name port = 1 := by
  obtain ⟨target, hlt, rfl⟩ := List.getElem_of_mem hnode
  obtain ⟨slot, hslot, rfl⟩ := List.getElem_of_mem hport
  have hname : g.names[target]? = some g.nodes[target].name :=
    getElem?_names_eq_some_iff.mpr ⟨_, List.getElem?_eq_getElem hlt, rfl⟩
  have hfilters : l.filters[target]? = some filter :=
    l.getElem?_filters.mpr ⟨_, List.getElem?_eq_getElem hlt, hfilter⟩
  have hinputs : slot < (l.wiring.inputsOf target).length := by
    rwa [l.length_inputsOf hfilters, ← Filter.length_portList]
  have hwire := l.mem_wires_iff.mpr (List.getElem?_eq_getElem hinputs)
  unfold fanIn
  rw [← count_place l.names_nodup l.lays hname hfilters (List.getElem?_eq_getElem hslot)]
  exact List.count_eq_one_of_mem l.places_nodup (List.mem_map_of_mem hwire)

/-- **Soundness.** A graph with a plan is well-formed. -/
theorem wellFormed (l : g.Layout) : g.WellFormed where
  nodes_ne_nil := l.nodes_ne_nil
  names_nodup := l.names_nodup
  registered := by
    intro node hnode
    obtain ⟨id, hlt, rfl⟩ := List.getElem_of_mem hnode
    have hfilter := List.getElem?_eq_getElem (l.length_filters ▸ hlt : id < l.filters.length)
    obtain ⟨node, hnode, hname⟩ := l.getElem?_filters.mp hfilter
    rw [List.getElem?_eq_getElem hlt] at hnode
    exact ⟨_, hname.trans (congrArg Node.filter (Option.some.inj hnode).symm)⟩
  accepted := by
    intro node hnode filter hname
    obtain ⟨id, hlt, rfl⟩ := List.getElem_of_mem hnode
    have hget := List.getElem?_eq_getElem hlt
    obtain ⟨param, -, hparam⟩ :=
      l.getElem?_params hget (l.getElem?_filters.mpr ⟨_, hget, hname⟩)
    exact ⟨param, hparam⟩
  output_mem := List.mem_of_getElem? l.getElem?_names_output
  source_mem := by
    intro e he
    obtain ⟨source, target, slot, hlays, -⟩ := l.mem_edges_iff.mp he
    exact List.mem_of_getElem? hlays.source
  target_mem := by
    intro e he
    obtain ⟨source, target, slot, hlays, -⟩ := l.mem_edges_iff.mp he
    obtain ⟨filter, hfilter, hport⟩ := hlays.slot
    obtain ⟨node, hnode, hname⟩ := l.getElem?_filters.mp hfilter
    obtain ⟨node', hnode', htarget⟩ := getElem?_names_eq_some_iff.mp hlays.target
    -- The filter that has the port is that of the node at which the edge ends.
    obtain rfl : node = node' := Option.some.inj (hnode.symm.trans hnode')
    exact ⟨node, List.mem_of_getElem? hnode, htarget, filter, hname, List.mem_of_getElem? hport⟩
  wired := fun _ hnode _ hfilter _ hport => l.fanIn_eq_one hnode hfilter hport
  acyclic := l.acyclic_iff.mp l.isSchedule.acyclic

end Layout

/-! ### Completeness -/

namespace WellFormed

/-- The first phase accepts a well-formed graph. -/
theorem exists_filters (h : g.WellFormed) : ∃ filters, g.filters = .ok filters := by
  refine ⟨g.nodes.map fun node => (Filter.ofName? node.filter).getD .nullArg,
    filters_eq_ok_iff.mpr ⟨h.names_nodup, ?_⟩⟩
  rw [List.map_map]
  refine List.map_congr_left fun node hnode => ?_
  obtain ⟨filter, hname⟩ := h.registered node hnode
  simp [Filter.ofName?_eq_some_iff.mpr hname, hname]

/-- So does the second. -/
theorem exists_params (h : g.WellFormed) {filters : List Filter}
    (hfilters : filters.map (·.name) = g.nodes.map (·.filter)) :
    ∃ params, g.params filters = .ok params := by
  simp only [params_eq_ok_iff]
  refine exists_forall₂ fun declared hmem => ?_
  obtain ⟨id, hid⟩ := List.mem_iff_getElem?.mp hmem
  obtain ⟨hnode, hfilter⟩ := List.getElem?_zip_eq_some.mp hid
  obtain ⟨node, hnode', hname⟩ := (getElem?_filters_eq_some_iff hfilters).mp hfilter
  rw [hnode] at hnode'
  exact h.accepted _ (List.mem_of_getElem? hnode) _ (Option.some.inj hnode' ▸ hname)

/-- Every edge of it can be laid. -/
theorem exists_lays (h : g.WellFormed) {filters : List Filter}
    (hfilters : filters.map (·.name) = g.nodes.map (·.filter)) {e : Edge} (he : e ∈ g.edges) :
    ∃ w, g.Lays filters e w := by
  obtain ⟨source, hsource⟩ := List.mem_iff_getElem?.mp (h.source_mem e he)
  obtain ⟨node, hnode, htarget, filter, hname, hport⟩ := h.target_mem e he
  obtain ⟨target, hget⟩ := List.mem_iff_getElem?.mp hnode
  obtain ⟨slot, hslot⟩ := List.mem_iff_getElem?.mp hport
  exact ⟨⟨source, target, slot⟩, hsource, getElem?_names_eq_some_iff.mpr ⟨node, hget, htarget⟩,
    filter, (getElem?_filters_eq_some_iff hfilters).mpr ⟨node, hget, hname⟩, hslot⟩

/-- The wires of a well-formed graph end in each slot exactly once. -/
theorem count_place_eq_one (h : g.WellFormed) {filters : List Filter}
    (hfilters : filters.map (·.name) = g.nodes.map (·.filter)) {wires : List Wire}
    (hwires : List.Forall₂ (g.Lays filters) g.edges wires) {target slot : Nat} {filter : Filter}
    (hfilter : filters[target]? = some filter) (hslot : slot < filter.ports.length) :
    (wires.map Wire.place).count (target, slot) = 1 := by
  obtain ⟨node, hnode, hname⟩ := (getElem?_filters_eq_some_iff hfilters).mp hfilter
  rw [← Filter.length_portList] at hslot
  have hport := List.getElem?_eq_getElem hslot
  have htarget : g.names[target]? = some node.name :=
    getElem?_names_eq_some_iff.mpr ⟨node, hnode, rfl⟩
  rw [count_place h.names_nodup hwires htarget hfilter hport]
  exact h.wired node (List.mem_of_getElem? hnode) filter hname _ (List.getElem_mem _)

/-- No two wires of a well-formed graph end in one slot. -/
theorem nodup_places (h : g.WellFormed) {filters : List Filter}
    (hfilters : filters.map (·.name) = g.nodes.map (·.filter)) {wires : List Wire}
    (hwires : List.Forall₂ (g.Lays filters) g.edges wires) : (wires.map Wire.place).Nodup := by
  refine List.nodup_iff_count_le_one.mpr fun place => ?_
  by_cases hmem : place ∈ wires.map Wire.place
  · obtain ⟨w, hw, rfl⟩ := List.mem_map.mp hmem
    obtain ⟨e, -, he⟩ := exists_of_forall₂ hwires.flip hw
    obtain ⟨filter, hfilter, hport⟩ := he.slot
    have hslot := (List.getElem?_eq_some_iff.mp hport).1
    rw [Filter.length_portList] at hslot
    exact (h.count_place_eq_one hfilters hwires hfilter hslot).le
  · rw [List.count_eq_zero_of_not_mem hmem]
    exact Nat.zero_le 1

/-- Every slot of a well-formed graph has a wire. -/
theorem exists_wiring (h : g.WellFormed) {filters : List Filter}
    (hfilters : filters.map (·.name) = g.nodes.map (·.filter)) {wires : List Wire}
    (hwires : List.Forall₂ (g.Lays filters) g.edges wires) :
    ∃ wiring, g.inputs filters wires = .ok wiring := by
  have hlen := length_eq_of_map_name_eq hfilters
  refine (exists_inputs_eq_ok_iff hlen (h.nodup_places hfilters hwires)).mpr
    fun target filter hfilter slot hslot => ?_
  have hcount := h.count_place_eq_one hfilters hwires hfilter hslot
  have hmem : (target, slot) ∈ wires.map Wire.place := List.count_pos_iff.mp (by omega)
  obtain ⟨w, hw, hplace⟩ := List.mem_map.mp hmem
  obtain ⟨rfl, rfl⟩ := Prod.mk.inj hplace
  exact ⟨w.source, hw⟩

/-- Every phase up to the ordering succeeds on a well-formed graph. -/
theorem exists_wired (h : g.WellFormed) : Nonempty g.Wired := by
  -- What each phase finds, one after the other.
  obtain ⟨filters, hfilters⟩ := h.exists_filters
  have hnames := (filters_eq_ok_iff.mp hfilters).2
  have hlen := length_eq_of_map_name_eq hnames
  obtain ⟨params, hparams⟩ := h.exists_params hnames
  obtain ⟨output, houtput⟩ := List.mem_iff_getElem?.mp h.output_mem
  obtain ⟨wires, hlays⟩ := exists_forall₂ fun e he => h.exists_lays hnames he
  have hplaces := h.nodup_places hnames hlays
  obtain ⟨wiring, hwiring⟩ := h.exists_wiring hnames hlays
  exact ⟨⟨filters, params, output, wires, wiring, h.nodes_ne_nil, hfilters, hparams,
    (nodeId_eq_ok_iff h.names_nodup).mpr houtput,
    (wires_eq_ok_iff h.names_nodup hlen).mpr ⟨hlays, hplaces⟩, hwiring⟩⟩

/-- **Completeness.** Every phase of planning succeeds on a well-formed graph. -/
theorem exists_layout (h : g.WellFormed) : Nonempty g.Layout := by
  obtain ⟨l⟩ := h.exists_wired
  -- The wiring has no cycle, so the scheduler comes to an end.
  obtain ⟨order, horder⟩ := (schedule_isOk_iff l.closed).mpr (l.acyclic_iff.mpr h.acyclic)
  exact ⟨⟨l, order, orderOf_eq_ok_iff.mpr horder⟩⟩

end WellFormed

/-- **The planner accepts exactly the well-formed graphs.** -/
theorem plan_isOk_iff_wellFormed (g : Graph) :
    (∃ planned, g.plan = .ok planned) ↔ g.WellFormed := by
  constructor
  · rintro ⟨planned, h⟩
    obtain ⟨l, -⟩ := plan_eq_ok_iff.mp h
    exact l.wellFormed
  · intro h
    obtain ⟨l⟩ := h.exists_layout
    exact ⟨_, plan_eq_ok_iff.mpr ⟨l, rfl⟩⟩

end MeshExpr.Graph
