import MeshExpr.Proofs.Planning.Layout
import Mathlib.Algebra.GroupWithZero.Nat
import Mathlib.Data.Set.Function

namespace MeshExpr

/-!
# What a plan has to do with its graph

A plan speaks of positions where the graph speaks of names. `Graph.Image` says that nothing is lost
between the two: the nodes of the plan are the declared ones in order, every edge has a slot of its
own, and every slot holds the node from which its edge comes.

* `Graph.slot` — the slot in which an edge ends, read off the graph alone.
* `Graph.Layout.slot_eq` — planning puts an edge into just this slot.
* `Graph.Layout.slots_perm` — the slots of the edges are all slots of the plan, each of them once.
* `Graph.image_of_plan` — every plan is an image of its graph.
-/

namespace Plan

/-- The nodes that feed the ports of each node. -/
def wiring (p : Plan) : Wiring := p.nodes.map (·.inputs)

/-- The input slots of all nodes: the position of a node with the place of one of its ports. -/
def slots (p : Plan) : List (Nat × Nat) :=
  p.nodes.flatMap fun node => (List.range node.filter.ports.length).map (node.id, ·)

/-- The node that a slot holds. -/
def input? (p : Plan) (slot : Nat × Nat) : Option Nat :=
  p.nodes[slot.1]?.bind (·.inputs[slot.2]?)

/-- The slots of a plan are the ports of its nodes, one for each port. -/
theorem mem_slots {p : Plan} {slot : Nat × Nat} :
    slot ∈ p.slots ↔ ∃ node ∈ p.nodes, node.id = slot.1 ∧ slot.2 < node.filter.ports.length := by
  simp only [slots, List.mem_flatMap, List.mem_map, List.mem_range, Prod.ext_iff]
  constructor
  · rintro ⟨node, hnode, port, hport, hid, rfl⟩
    exact ⟨node, hnode, hid, hport⟩
  · rintro ⟨node, hnode, hid, hport⟩
    exact ⟨node, hnode, _, hport, hid, rfl⟩

/-- There are as many slots as the filters of the nodes have ports. -/
theorem length_slots (p : Plan) :
    p.slots.length = (p.nodes.map (·.filter.ports.length)).sum := by
  simp [slots, List.length_flatMap]

/-- If no two nodes have one position, no slot is listed twice. -/
theorem nodup_slots {p : Plan} (h : (p.nodes.map (·.id)).Nodup) : p.slots.Nodup := by
  refine List.nodup_flatMap.mpr ⟨fun node _ => ?_, ?_⟩
  · exact List.nodup_range.map fun _ _ hsame => (Prod.mk.inj hsame).2
  · refine (List.pairwise_map.mp h).imp fun hne slot hslot hslot' => ?_
    obtain ⟨_, -, rfl⟩ := List.mem_map.mp hslot
    obtain ⟨_, -, hsame⟩ := List.mem_map.mp hslot'
    exact hne (Prod.mk.inj hsame).1.symm

end Plan

namespace Graph

/-- The ports of a declared node, by the filter that it names. -/
def portsAt (g : Graph) (id : Nat) : List String :=
  ((g.nodes[id]?.bind fun node => Filter.ofName? node.filter).map Filter.portList).getD []

/-- The slot in which an edge ends: the place of the node that it names, and the place of the port
    among the ports of this node. -/
def slot (g : Graph) (e : Edge) : Nat × Nat :=
  (g.names.idxOf e.target, (g.portsAt (g.names.idxOf e.target)).idxOf e.port)

/-- The plan and its counts show the graph as it was declared. -/
structure Image (g : Graph) (p : Plan) (m : Manifest) : Prop where
  name_eq : p.name = g.name
  names_nodup : g.names.Nodup
  length_nodes : p.nodes.length = g.nodes.length
  /-- A node of the plan has its place as its position, the name, the filter and the checked
      parameter of the node that is declared there. -/
  node : ∀ (id : Nat) node, p.nodes[id]? = some node → node.id = id ∧
    ∃ declared, g.nodes[id]? = some declared ∧ node.name = declared.name
      ∧ Filter.ofName? declared.filter = some node.filter
      ∧ node.filter.paramSpec.check declared.params = .ok node.param
  /-- A node has one input for each port of its filter. -/
  length_inputs : ∀ node ∈ p.nodes, node.inputs.length = node.filter.ports.length
  inputs_lt : ∀ node ∈ p.nodes, ∀ i ∈ node.inputs, i < p.nodes.length
  edges_nodup : g.edges.Nodup
  /-- Each edge ends in one slot, and each slot is the end of one edge. -/
  slot_bijOn : Set.BijOn g.slot {e | e ∈ g.edges} {slot | slot ∈ p.slots}
  /-- The slot of an edge holds the node from which the edge comes. -/
  input : ∀ e ∈ g.edges, ∃ source, p.input? (g.slot e) = some source
    ∧ g.names[source]? = some e.source
  output : g.names[p.output]? = some g.output
  /-- Every node runs once, after all its inputs. -/
  order : p.wiring.IsSchedule p.order
  nodeCount : m.nodeCount = p.nodes.length
  edgeCount : m.edgeCount = g.edges.length
  edgeCount_eq_sum : m.edgeCount = (p.nodes.map (·.filter.ports.length)).sum
  collectiveCount : m.collectiveCount = p.nodes.countP (·.filter.isCollective)

variable {g : Graph}

namespace Layout

variable (l : g.Layout)

/-- Every node has its parameters. -/
theorem length_params : l.params.length = g.nodes.length := by
  have h := (forall₂_iff_getElem?.mp (params_eq_ok_iff.mp l.params_eq)).1
  simpa [l.length_filters] using h.symm

@[simp] theorem length_plan_nodes : l.plan.nodes.length = g.nodes.length := by
  simp [plan, plannedNodes, l.length_filters, l.length_params, l.length_wiring]

/-! ### Nodes -/

/-- A node of the plan is put together from what the phases have found at its place. -/
theorem getElem?_plan_nodes {id : Nat} {node : PlannedNode} :
    l.plan.nodes[id]? = some node ↔ node.id = id ∧ ∃ declared, g.nodes[id]? = some declared
      ∧ node.name = declared.name ∧ l.filters[id]? = some node.filter
      ∧ l.params[id]? = some node.param ∧ l.wiring[id]? = some node.inputs := by
  -- The lists of the phases are zipped, so what stands at one place belongs together.
  simp only [plan, plannedNodes, List.getElem?_map, List.getElem?_zipIdx, Nat.zero_add,
    Option.map_map, Option.map_eq_some_iff, Prod.exists, List.getElem?_zip_eq_some]
  constructor
  · rintro ⟨declared, filter, param, inputs, ⟨hdeclared, hfilter, hparam, hinputs⟩, rfl⟩
    exact ⟨rfl, declared, hdeclared, rfl, hfilter, hparam, hinputs⟩
  · rintro ⟨rfl, declared, hdeclared, hname, hfilter, hparam, hinputs⟩
    refine ⟨declared, _, _, _, ⟨hdeclared, hfilter, hparam, hinputs⟩, ?_⟩
    cases node
    simp_all

/-- Every declared node has its node in the plan. -/
theorem exists_plan_node {id : Nat} {declared : Node} (h : g.nodes[id]? = some declared) :
    ∃ node, l.plan.nodes[id]? = some node ∧ node.name = declared.name := by
  have hlt : id < l.plan.nodes.length := by
    rw [l.length_plan_nodes]
    exact (List.getElem?_eq_some_iff.mp h).1
  have hnode := List.getElem?_eq_getElem hlt
  obtain ⟨-, declared', hdeclared', hname, -⟩ := l.getElem?_plan_nodes.mp hnode
  obtain rfl : declared = declared' := Option.some.inj (h.symm.trans hdeclared')
  exact ⟨_, hnode, hname⟩

/-- Whatever a node of the plan shows at its place is listed in the order of the places. -/
theorem map_plan_nodes {α : Type} {f : PlannedNode → α} {shown : List α}
    (hlen : shown.length = g.nodes.length)
    (h : ∀ (id : Nat) node, l.plan.nodes[id]? = some node → shown[id]? = some (f node)) :
    l.plan.nodes.map f = shown := by
  refine List.ext_getElem? fun id => ?_
  rw [List.getElem?_map]
  cases hnode : l.plan.nodes[id]? with
  | some node => rw [h id node hnode, Option.map_some]
  | none =>
    have hge : shown.length ≤ id := by
      rw [hlen, ← l.length_plan_nodes]
      exact List.getElem?_eq_none_iff.mp hnode
    rw [List.getElem?_eq_none hge, Option.map_none]

/-- The wiring of the plan is that which was laid. -/
theorem plan_wiring : l.plan.wiring = l.wiring :=
  l.map_plan_nodes l.length_wiring fun id node hnode => by
    obtain ⟨-, declared, -, -, -, -, hinputs⟩ := l.getElem?_plan_nodes.mp hnode
    exact hinputs

/-- The nodes of the plan have the filters that were found. -/
theorem map_filter_plan_nodes : l.plan.nodes.map (·.filter) = l.filters :=
  l.map_plan_nodes l.length_filters fun id node hnode => by
    obtain ⟨-, declared, -, -, hfilter, -⟩ := l.getElem?_plan_nodes.mp hnode
    exact hfilter

/-- The node at a place has this place as its position. -/
theorem map_id_plan_nodes : l.plan.nodes.map (·.id) = List.range g.nodes.length :=
  l.map_plan_nodes List.length_range fun id node hnode => by
    rw [(l.getElem?_plan_nodes.mp hnode).1, List.getElem?_range]
    rw [← l.length_plan_nodes]
    exact (List.getElem?_eq_some_iff.mp hnode).1

/-! ### Slots -/

/-- The ports of a node are those of its filter. -/
theorem portsAt_eq {id : Nat} {filter : Filter} (h : l.filters[id]? = some filter) :
    g.portsAt id = filter.portList := by
  obtain ⟨node, hnode, hname⟩ := l.getElem?_filters.mp h
  unfold portsAt
  rw [hnode, Option.bind_some, Filter.ofName?_eq_some_iff.mpr hname]
  rfl

/-- Planning puts an edge into the slot that its names say. -/
theorem slot_eq {e : Edge} {w : Wire} (h : g.Lays l.filters e w) : g.slot e = w.place := by
  obtain ⟨filter, hfilter, hport⟩ := h.slot
  obtain ⟨hlt, htarget⟩ := List.getElem?_eq_some_iff.mp h.target
  obtain ⟨hslot, hport⟩ := List.getElem?_eq_some_iff.mp hport
  unfold slot Wire.place
  rw [← htarget, l.names_nodup.idxOf_getElem, l.portsAt_eq hfilter, ← hport,
    filter.nodup_portList.idxOf_getElem]

/-- Every edge is laid to its own slot. -/
theorem map_slot_edges : g.edges.map g.slot = l.wires.map Wire.place := by
  have h := l.lays
  generalize g.edges = edges at h
  generalize l.wires = wires at h
  induction h with
  | nil => rfl
  | cons he _ ih => rw [List.map_cons, List.map_cons, l.slot_eq he, ih]

/-- The slots of the plan are the ports of the filters that were found. -/
theorem mem_slots_plan {slot : Nat × Nat} :
    slot ∈ l.plan.slots ↔ ∃ filter, l.filters[slot.1]? = some filter
      ∧ slot.2 < filter.ports.length := by
  rw [Plan.mem_slots]
  constructor
  · rintro ⟨node, hnode, hid, hslot⟩
    obtain ⟨id, hnode⟩ := List.mem_iff_getElem?.mp hnode
    obtain ⟨hid', declared, -, -, hfilter, -⟩ := l.getElem?_plan_nodes.mp hnode
    exact ⟨node.filter, by rw [← hid, hid', hfilter], hslot⟩
  · rintro ⟨filter, hfilter, hslot⟩
    obtain ⟨declared, hdeclared, -⟩ := l.getElem?_filters.mp hfilter
    obtain ⟨node, hnode, -⟩ := l.exists_plan_node hdeclared
    obtain ⟨hid, -, -, -, hfilter', -⟩ := l.getElem?_plan_nodes.mp hnode
    obtain rfl : filter = node.filter := Option.some.inj (hfilter.symm.trans hfilter')
    exact ⟨node, List.mem_of_getElem? hnode, hid, hslot⟩

/-- **Edges and slots.** The slots of the edges are all slots of the plan, each of them once. -/
theorem slots_perm : (g.edges.map g.slot).Perm l.plan.slots := by
  have hids : (l.plan.nodes.map (·.id)).Nodup := l.map_id_plan_nodes ▸ List.nodup_range
  -- Neither list has a slot twice, so it is enough that they have the same slots.
  rw [l.map_slot_edges, List.perm_ext_iff_of_nodup l.places_nodup (Plan.nodup_slots hids)]
  intro slot
  rw [l.mem_slots_plan, List.mem_map]
  constructor
  · rintro ⟨w, hw, rfl⟩
    obtain ⟨e, -, he⟩ := exists_of_forall₂ l.lays.flip hw
    obtain ⟨filter, hfilter, hport⟩ := he.slot
    have hslot := (List.getElem?_eq_some_iff.mp hport).1
    exact ⟨filter, hfilter, filter.length_portList ▸ hslot⟩
  · rintro ⟨filter, hfilter, hslot⟩
    rw [← l.length_inputsOf hfilter] at hslot
    exact ⟨_, l.mem_wires_iff.mpr (List.getElem?_eq_getElem hslot), rfl⟩

/-- **Edges and slots correspond**, one to one. -/
theorem slot_bijOn (l : g.Layout) :
    Set.BijOn g.slot {e | e ∈ g.edges} {slot | slot ∈ l.plan.slots} := by
  have hnodup : (g.edges.map g.slot).Nodup := l.map_slot_edges ▸ l.places_nodup
  refine ⟨fun e he => ?_, fun e he e' he' => List.inj_on_of_nodup_map hnodup he he',
    fun slot hslot => ?_⟩
  · exact l.slots_perm.mem_iff.mp (List.mem_map_of_mem he)
  · exact List.mem_map.mp (l.slots_perm.mem_iff.mpr hslot)

/-- The slot of an edge is fed by the node at which the edge begins. -/
theorem input_slot {e : Edge} (he : e ∈ g.edges) :
    ∃ source, l.plan.input? (g.slot e) = some source ∧ g.names[source]? = some e.source := by
  obtain ⟨source, target, slot, hlays, hinput⟩ := l.mem_edges_iff.mp he
  refine ⟨source, ?_, hlays.source⟩
  have hlt : target < g.nodes.length := l.length_filters ▸ hlays.lt_length
  obtain ⟨node, hnode, -⟩ := l.exists_plan_node (List.getElem?_eq_getElem hlt)
  obtain ⟨-, declared, -, -, -, -, hinputs⟩ := l.getElem?_plan_nodes.mp hnode
  rw [l.slot_eq hlays, Plan.input?, Wire.place, hnode, Option.bind_some]
  rw [l.getElem?_wiring hlt] at hinputs
  rwa [← Option.some.inj hinputs]

/-! ### The image -/

/-- The plan that planning makes of its findings is an image of the graph. -/
theorem image (l : g.Layout) : g.Image l.plan l.manifest where
  name_eq := rfl
  names_nodup := l.names_nodup
  length_nodes := l.length_plan_nodes
  node := by
    intro id node hnode
    obtain ⟨hid, declared, hdeclared, hname, hfilter, hparam, -⟩ := l.getElem?_plan_nodes.mp hnode
    obtain ⟨param, hparam', hcheck⟩ := l.getElem?_params hdeclared hfilter
    obtain ⟨declared', hdeclared', hfilter⟩ := l.getElem?_filters.mp hfilter
    -- Filter and parameter are those of one and the same node.
    obtain rfl : declared = declared' := Option.some.inj (hdeclared.symm.trans hdeclared')
    obtain rfl : node.param = param := Option.some.inj (hparam.symm.trans hparam')
    exact ⟨hid, declared, hdeclared, hname, Filter.ofName?_eq_some_iff.mpr hfilter, hcheck⟩
  length_inputs := by
    intro node hmem
    obtain ⟨id, hnode⟩ := List.mem_iff_getElem?.mp hmem
    obtain ⟨-, declared, -, -, hfilter, -, hinputs⟩ := l.getElem?_plan_nodes.mp hnode
    rw [← l.length_inputsOf hfilter, Wiring.inputsOf, hinputs, Option.getD_some]
  inputs_lt := by
    intro node hmem i hi
    obtain ⟨id, hnode⟩ := List.mem_iff_getElem?.mp hmem
    obtain ⟨-, declared, -, -, -, -, hinputs⟩ := l.getElem?_plan_nodes.mp hnode
    rw [l.length_plan_nodes, ← l.length_wiring]
    exact l.closed _ (List.mem_of_getElem? hinputs) i hi
  edges_nodup := List.Nodup.of_map _ (l.map_slot_edges ▸ l.places_nodup)
  slot_bijOn := l.slot_bijOn
  input := fun _ he => l.input_slot he
  output := l.getElem?_names_output
  order := l.plan_wiring ▸ l.isSchedule
  nodeCount := l.length_plan_nodes.symm
  edgeCount := rfl
  edgeCount_eq_sum := by
    rw [← Plan.length_slots, ← l.slots_perm.length_eq, List.length_map]
    rfl
  collectiveCount := by
    show l.filters.countP _ = _
    rw [← l.map_filter_plan_nodes, List.countP_map]
    rfl

end Layout

/-- **Every plan is a faithful image of its graph.** -/
theorem image_of_plan {g : Graph} {p : Plan} {m : Manifest} (h : g.plan = .ok (p, m)) :
    g.Image p m := by
  obtain ⟨l, hl⟩ := plan_eq_ok_iff.mp h
  obtain ⟨rfl, rfl⟩ := Prod.mk.inj hl
  exact l.image

/-- A number added to itself. The sum is declared before the number that feeds both its ports. -/
def doubled : Graph where
  name := "doubled"
  nodes := [⟨"sum", "expr_binary_op", Named.ofList [("op_string", .string "+")]⟩,
    ⟨"one", "expr_integer", Named.ofList [("value", .int 1)]⟩]
  edges := [⟨"one", "sum", "lhs"⟩, ⟨"one", "sum", "rhs"⟩]
  output := "sum"

/-- The plan of `doubled`. -/
def doubledPlan : Plan where
  name := "doubled"
  nodes := [⟨0, "sum", .binaryOp, .op .add, [1, 1]⟩, ⟨1, "one", .integer, .int 1, []⟩]
  order := [1, 0]
  output := 0

/-- A histogram of a field with as many bins as usual, over the range of its samples. -/
def spectrum : Graph where
  name := "spectrum"
  nodes := [⟨"field", "expr_meshvar", Named.ofList [("value", .string "e")]⟩,
    ⟨"none", "null_arg", ∅⟩, ⟨"bins", "histogram", ∅⟩]
  edges := [⟨"field", "bins", "field"⟩, ⟨"none", "bins", "num_bins"⟩, ⟨"none", "bins", "min_val"⟩,
    ⟨"none", "bins", "max_val"⟩]
  output := "bins"

/-- The plan of `spectrum`. -/
def spectrumPlan : Plan where
  name := "spectrum"
  nodes := [⟨0, "field", .fieldRef, .name "e", []⟩, ⟨1, "none", .nullArg, .nothing, []⟩,
    ⟨2, "bins", .histogram, .nothing, [0, 1, 1, 1]⟩]
  order := [0, 1, 2]
  output := 2

/-- The plan of `spectrum`. -/
theorem plan_spectrum : spectrum.plan = .ok (spectrumPlan, ⟨3, 4, 1, 2⟩) := by rfl

/-- Two edges from one node to both ports of another are two slots of the plan. -/
theorem image_of_doubled :
    doubled.plan = .ok (doubledPlan, ⟨2, 2, 0, 2⟩) ∧ doubled.Image doubledPlan ⟨2, 2, 0, 2⟩ :=
  ⟨by rfl, image_of_plan (by rfl)⟩

end Graph

end MeshExpr
