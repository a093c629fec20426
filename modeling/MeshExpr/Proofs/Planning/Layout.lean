import MeshExpr.Proofs.Planning.Phases
import MeshExpr.Proofs.Schedule.Order

namespace MeshExpr.Graph

/-!
# Edges between names and slots between positions

Planning turns names into positions: an edge of the graph becomes an input of a slot. Here the two
sides are tied together, so that later proofs can pass from the one to the other without looking at
wires.

* `Lays.place_eq_iff` — the slot in which an edge ends says which node and port the edge names.
* `Wired.mem_edges_iff` — the edges of a planned graph are exactly the inputs of its slots.
* `Wired.closed` and `Layout.isSchedule` — every input is a node, and the order is a schedule.
-/

variable {g : Graph}

/-! ### Edges and the wires that they become -/

namespace Lays

variable {filters : List Filter} {e e' : Edge} {w w' : Wire}

/-- A wire ends at a node. -/
theorem lt_length (h : g.Lays filters e w) : w.target < filters.length := by
  obtain ⟨filter, hfilter, -⟩ := h.slot
  exact (List.getElem?_eq_some_iff.mp hfilter).1

/-- A wire comes from one edge. -/
theorem edge_unique (h : g.Lays filters e w) (h' : g.Lays filters e' w) : e = e' := by
  obtain ⟨filter, hfilter, hport⟩ := h.slot
  obtain ⟨filter', hfilter', hport'⟩ := h'.slot
  obtain rfl : filter = filter' := Option.some.inj (hfilter.symm.trans hfilter')
  have hsource : e.source = e'.source := Option.some.inj (h.source.symm.trans h'.source)
  have htarget : e.target = e'.target := Option.some.inj (h.target.symm.trans h'.target)
  have hsame : e.port = e'.port := Option.some.inj (hport.symm.trans hport')
  cases e; cases e'
  simp_all

/-- The slot in which a wire ends says which node and which port its edge names. -/
theorem place_eq_iff (hnames : g.names.Nodup) (h : g.Lays filters e w) {target slot : Nat}
    {filter : Filter} {name port : String} (hname : g.names[target]? = some name)
    (hfilter : filters[target]? = some filter) (hport : filter.portList[slot]? = some port) :
    w.place = (target, slot) ↔ e.target = name ∧ e.port = port := by
  obtain ⟨filter', hfilter', hport'⟩ := h.slot
  unfold Wire.place
  constructor
  · rintro heq
    obtain ⟨rfl, rfl⟩ := Prod.mk.inj heq
    obtain rfl : filter = filter' := Option.some.inj (hfilter.symm.trans hfilter')
    exact ⟨Option.some.inj (h.target.symm.trans hname), Option.some.inj (hport'.symm.trans hport)⟩
  · rintro ⟨rfl, rfl⟩
    -- No two nodes have one name, and no two ports of a filter do.
    have htarget : w.target = target := place_unique hnames h.target hname
    rw [htarget] at hfilter'
    obtain rfl : filter = filter' := Option.some.inj (hfilter.symm.trans hfilter')
    have hlt := (List.getElem?_eq_some_iff.mp hport).1
    rw [htarget, (List.getElem?_inj hlt filter.nodup_portList).mp (hport.trans hport'.symm)]

end Lays

/-- As many wires end in a slot as edges name its node and its port. -/
theorem count_place {filters : List Filter} (hnames : g.names.Nodup) {edges : List Edge}
    {wires : List Wire} (h : List.Forall₂ (g.Lays filters) edges wires) {target slot : Nat}
    {filter : Filter} {name port : String} (hname : g.names[target]? = some name)
    (hfilter : filters[target]? = some filter) (hport : filter.portList[slot]? = some port) :
    (wires.map Wire.place).count (target, slot)
      = edges.countP fun e => e.target == name && e.port == port := by
  induction h with
  | nil => rfl
  | cons he _ ih =>
    have hplace := he.place_eq_iff hnames hname hfilter hport
    rw [List.map_cons, List.count_cons, List.countP_cons, ih]
    simp [hplace]

/-! ### What is known of a graph whose wires are laid -/

namespace Wired

variable (l : g.Wired)

/-- The nodes of a wired graph have different names. -/
theorem names_nodup (l : g.Wired) : g.names.Nodup := (filters_eq_ok_iff.mp l.filters_eq).1

/-- The filters are those that the nodes name. -/
theorem map_name_filters : l.filters.map (·.name) = g.nodes.map (·.filter) :=
  (filters_eq_ok_iff.mp l.filters_eq).2

/-- There is one for every node. -/
theorem length_filters : l.filters.length = g.nodes.length :=
  length_eq_of_map_name_eq l.map_name_filters

/-- The filter of a node is the one that it names. -/
theorem getElem?_filters {id : Nat} {filter : Filter} :
    l.filters[id]? = some filter ↔ ∃ node, g.nodes[id]? = some node ∧ filter.name = node.filter :=
  getElem?_filters_eq_some_iff l.map_name_filters

/-- The wires are laid for the edges, in their order. -/
theorem lays : List.Forall₂ (g.Lays l.filters) g.edges l.wires :=
  ((wires_eq_ok_iff l.names_nodup l.length_filters).mp l.wires_eq).1

/-- No two wires end at one place. -/
theorem places_nodup : (l.wires.map Wire.place).Nodup :=
  ((wires_eq_ok_iff l.names_nodup l.length_filters).mp l.wires_eq).2

/-- The wiring has a row for every node. -/
theorem length_wiring : l.wiring.length = g.nodes.length :=
  ((inputs_eq_ok_iff l.length_filters l.places_nodup).mp l.wiring_eq).1

/-- The row of a node lists what feeds it. -/
theorem getElem?_wiring {id : Nat} (h : id < g.nodes.length) :
    l.wiring[id]? = some (l.wiring.inputsOf id) := by
  unfold Wiring.inputsOf
  rw [List.getElem?_eq_getElem (l.length_wiring ▸ h)]
  rfl

/-- A node has as many inputs as its filter has ports. -/
theorem length_inputsOf {id : Nat} {filter : Filter} (h : l.filters[id]? = some filter) :
    (l.wiring.inputsOf id).length = filter.ports.length := by
  have hlt : id < g.nodes.length := l.length_filters ▸ (List.getElem?_eq_some_iff.mp h).1
  have hinputs := ((inputs_eq_ok_iff l.length_filters l.places_nodup).mp l.wiring_eq).2
  exact (hinputs id filter _ h (l.getElem?_wiring hlt)).1

/-- The input of a slot is where a wire to this slot begins. -/
theorem mem_wires_of_input {source target slot : Nat}
    (h : (l.wiring.inputsOf target)[slot]? = some source) : ⟨source, target, slot⟩ ∈ l.wires := by
  have hlt : target < g.nodes.length := by
    rw [← l.length_wiring]
    exact Wiring.Feeds.lt_length (List.mem_of_getElem? h)
  have hfilter := List.getElem?_eq_getElem (l.length_filters.symm ▸ hlt)
  have hinputs := ((inputs_eq_ok_iff l.length_filters l.places_nodup).mp l.wiring_eq).2
  exact (hinputs target _ _ hfilter (l.getElem?_wiring hlt)).2 slot source h

/-- The wires are the inputs of the slots. -/
theorem mem_wires_iff {source target slot : Nat} :
    ⟨source, target, slot⟩ ∈ l.wires ↔ (l.wiring.inputsOf target)[slot]? = some source := by
  refine ⟨fun h => ?_, l.mem_wires_of_input⟩
  -- The slot has some input, and no two wires end in it.
  obtain ⟨e, -, he⟩ := exists_of_forall₂ l.lays.flip h
  obtain ⟨filter, hfilter, hport⟩ := he.slot
  have hslot : slot < (l.wiring.inputsOf target).length := by
    rw [l.length_inputsOf hfilter, ← Filter.length_portList]
    exact (List.getElem?_eq_some_iff.mp hport).1
  have hsame := List.inj_on_of_nodup_map l.places_nodup h
    (l.mem_wires_of_input (List.getElem?_eq_getElem hslot)) rfl
  rw [List.getElem?_eq_getElem hslot, (Wire.mk.inj hsame).1]

/-- Every input comes from an edge. -/
theorem exists_edge {i node : Nat} (h : l.wiring.Feeds i node) :
    ∃ e ∈ g.edges, g.names[i]? = some e.source ∧ g.names[node]? = some e.target := by
  obtain ⟨slot, hslot⟩ := List.mem_iff_getElem?.mp h
  obtain ⟨e, he, hlays⟩ := exists_of_forall₂ l.lays.flip (l.mem_wires_of_input hslot)
  exact ⟨e, he, hlays.source, hlays.target⟩

/-- **Edges and slots.** The edges of a planned graph are exactly the inputs of its slots. -/
theorem mem_edges_iff {e : Edge} :
    e ∈ g.edges ↔ ∃ source target slot, g.Lays l.filters e ⟨source, target, slot⟩
      ∧ (l.wiring.inputsOf target)[slot]? = some source := by
  constructor
  · intro he
    obtain ⟨⟨source, target, slot⟩, hw, hlays⟩ := exists_of_forall₂ l.lays he
    exact ⟨source, target, slot, hlays, l.mem_wires_iff.mp hw⟩
  · rintro ⟨source, target, slot, hlays, hinput⟩
    obtain ⟨e', he', hlays'⟩ := exists_of_forall₂ l.lays.flip (l.mem_wires_iff.mpr hinput)
    exact hlays.edge_unique hlays' ▸ he'

/-- Every input is a node. -/
theorem closed : l.wiring.Closed := by
  intro inputs hmem i hi
  obtain ⟨node, hlt, rfl⟩ := List.getElem_of_mem hmem
  have hfeeds : l.wiring.Feeds i node := by
    unfold Wiring.Feeds Wiring.inputsOf
    rwa [List.getElem?_eq_getElem hlt]
  obtain ⟨e, -, hsource, -⟩ := l.exists_edge hfeeds
  rw [l.length_wiring, ← length_names]
  exact (List.getElem?_eq_some_iff.mp hsource).1

/-- The number of the output is that of the node with its name. -/
theorem getElem?_names_output : g.names[l.output]? = some g.output :=
  (nodeId_eq_ok_iff l.names_nodup).mp l.output_eq

/-- The parameter of a node is what its filter reads in it. -/
theorem getElem?_params {id : Nat} {node : Node} {filter : Filter}
    (hnode : g.nodes[id]? = some node) (hfilter : l.filters[id]? = some filter) :
    ∃ param, l.params[id]? = some param ∧ filter.paramSpec.check node.params = .ok param := by
  obtain ⟨hlen, hread⟩ := forall₂_iff_getElem?.mp (params_eq_ok_iff.mp l.params_eq)
  have hzip : (g.nodes.zip l.filters)[id]? = some (node, filter) :=
    List.getElem?_zip_eq_some.mpr ⟨hnode, hfilter⟩
  have hlt : id < l.params.length := hlen ▸ (List.getElem?_eq_some_iff.mp hzip).1
  exact ⟨_, List.getElem?_eq_getElem hlt, hread id _ _ hzip (List.getElem?_eq_getElem hlt)⟩

end Wired

/-- The order is a schedule. -/
theorem Layout.isSchedule (l : g.Layout) : l.wiring.IsSchedule l.order :=
  isSchedule_of_schedule (orderOf_eq_ok_iff.mp l.order_eq)

end MeshExpr.Graph
