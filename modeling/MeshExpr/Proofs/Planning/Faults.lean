import MeshExpr.Proofs.Fault
import MeshExpr.Proofs.Filter.Parameters
import MeshExpr.Proofs.Planning.Layout

namespace MeshExpr.Graph

/-!
# The faults of a graph

Each phase of planning looks for faults of its own. They are told here from names and edges alone,
in the order in which the phase looks for them, and each phase is shown to report the first one.

* `declared` — the nodes and the filters that they name.
* `nodeFaults`, `ParamsFault`, `edgeFaults` and `PortFault` — what can be wrong with a node behind
  others, with the parameters of all nodes together, with an edge behind others, and with a port.
* `filters_eq_error_iff`, `params_eq_error_iff`, `nodeId_eq_error_iff`, `wires_eq_error_iff` and
  `inputs_eq_error_iff` — what a phase reports if all phases before it succeed.
-/

variable {g : Graph}

/-! ### Nodes and their filters -/

/-- The nodes, each with the filter that it names. A node that names no filter is left out. -/
def declared (g : Graph) : List (Node × Filter) :=
  g.nodes.filterMap fun node => (Filter.ofName? node.filter).map (node, ·)

/-- If every node has a filter, none is left out. -/
theorem declared_eq {filters : List Filter} (h : g.filters = .ok filters) :
    g.declared = g.nodes.zip filters := by
  obtain ⟨-, hnames⟩ := filters_eq_ok_iff.mp h
  clear h
  unfold declared
  generalize g.nodes = nodes at hnames ⊢
  -- Every node names its filter, so that none is dropped.
  induction nodes generalizing filters with
  | nil => simp
  | cons node rest ih =>
    cases filters with
    | nil => simp at hnames
    | cons filter filters =>
      obtain ⟨hname, hrest⟩ := List.cons.inj hnames
      have hfilter : Filter.ofName? node.filter = some filter :=
        Filter.ofName?_eq_some_iff.mpr hname
      simp [hfilter, ih hrest]

/-- What can be wrong with a node if some names are taken. -/
def nodeFaults (taken : List String) (node : Node) : List (GraphError → Prop) :=
  [fun e => node.name ∈ taken ∧ e = .duplicateNode node.name,
    fun e => (∀ filter : Filter, filter.name ≠ node.filter)
      ∧ e = .unknownFilter node.name node.filter]

/-- The same behind names that have been seen before. -/
theorem filtersFrom_eq_error_iff {seen : List String} {nodes : List Node} {e : GraphError} :
    filtersFrom seen nodes = .error e ↔ FirstFault (fun before node =>
      FirstOf (nodeFaults (seen ++ before.map (·.name)) node)) nodes e := by
  induction nodes generalizing seen with
  | nil => simp [filtersFrom]
  | cons node rest ih =>
    unfold filtersFrom
    rw [firstFault_cons_iff, List.map_nil, List.append_nil]
    by_cases hseen : node.name ∈ seen
    · simp [nodeFaults, FirstOf, hseen, eq_comm]
    · rw [if_neg (by simpa using hseen)]
      cases hfilter : Filter.ofName? node.filter with
      | none =>
        have hnone := Filter.ofName?_eq_none_iff.mp hfilter
        simp [nodeFaults, FirstOf, hseen, hnone, eq_comm]
      | some filter =>
        have hname : filter.name = node.filter := Filter.ofName?_eq_some_iff.mp hfilter
        have hsound : ∀ e, ¬ FirstOf (nodeFaults seen node) e := by
          rw [forall_not_firstOf_iff]
          rintro fault hfault e he
          simp only [nodeFaults, List.mem_cons, List.not_mem_nil, or_false] at hfault
          rcases hfault with rfl | rfl
          · exact hseen he.1
          · exact he.1 filter hname
        have hrest : ∀ x : Except GraphError (List Filter),
            x >>= (fun fs => .ok (filter :: fs)) = .error e ↔ x = .error e := by
          rintro (e' | fs) <;> simp [bind, Except.bind]
        show filtersFrom (node.name :: seen) rest >>= (fun fs => .ok (filter :: fs)) = .error e ↔ _
        rw [hrest, ih, or_iff_right (hsound e), and_iff_right hsound]
        -- The name of the node is taken for the nodes behind it.
        refine firstFault_congr fun before n after _ e => ?_
        simp only [nodeFaults, List.mem_append, List.mem_cons, List.map_cons, or_assoc,
          or_left_comm]

/-- **First phase.** The first node is reported that has the name of an earlier one, or else no
    filter. -/
theorem filters_eq_error_iff {e : GraphError} : g.filters = .error e ↔
    FirstFault (fun before node => FirstOf (nodeFaults (before.map (·.name)) node)) g.nodes e :=
  filtersFrom_eq_error_iff

/-! ### Parameters -/

/-- The parameters of some node are rejected, and all that is wrong with those of any node is
    reported. -/
def ParamsFault (g : Graph) (e : GraphError) : Prop :=
  (∃ declared ∈ g.declared, (declared.2.paramSpec.validate declared.1.params []).1 = none)
    ∧ e = .invalidParams (g.declared.flatMap fun declared => nodeViolations declared.1 declared.2)

/-- **Second phase.** All that is wrong with the parameters is reported at once. -/
theorem params_eq_error_iff {filters : List Filter} (h : g.filters = .ok filters)
    {e : GraphError} : g.params filters = .error e ↔ g.ParamsFault e := by
  -- A node is rejected exactly if there is something to be reported about it.
  have hrejected : (∃ declared ∈ g.declared,
      (declared.2.paramSpec.validate declared.1.params []).1 = none) ↔
      g.declared.flatMap (fun declared => nodeViolations declared.1 declared.2) ≠ [] := by
    simp only [ParamSpec.validate_eq, ParamSpec.toOption_check_eq_none_iff, ne_eq,
      List.flatMap_eq_nil_iff, nodeViolations, List.map_eq_nil_iff, not_forall, exists_prop]
  unfold ParamsFault
  rw [hrejected, declared_eq h]
  unfold Graph.params
  dsimp only
  split
  · rename_i hnone
    simp [hnone]
  · rename_i violations hsome
    rw [and_iff_right hsome]
    exact error_eq_error_iff

/-! ### Places of names -/

/-- A name has no number if no node has it. -/
theorem nodeId_eq_error_iff {name : String} {e : GraphError} :
    g.nodeId name = .error e ↔ name ∉ g.names ∧ e = .unknownNode name := by
  have hmem : (g.nodes.findIdx? (·.name == name)).isSome ↔ name ∈ g.names := by
    rw [List.findIdx?_isSome, List.any_eq_true, names, List.mem_map]
    simp
  unfold nodeId
  cases hfind : g.nodes.findIdx? (·.name == name) with
  | none =>
    rw [hfind] at hmem
    have hnone : name ∉ g.names := fun h => absurd (hmem.mpr h) (by simp)
    rw [and_iff_right hnone]
    exact error_eq_error_iff
  | some id =>
    rw [hfind] at hmem
    simp [hmem.mp rfl]

/-! ### Wires -/

/-- What can be wrong with an edge behind others. -/
def edgeFaults (g : Graph) (before : List Edge) (edge : Edge) : List (GraphError → Prop) :=
  [fun e => edge.source ∉ g.names ∧ e = .unknownNode edge.source,
    fun e => edge.target ∉ g.names ∧ e = .unknownNode edge.target,
    fun e => ∃ declared ∈ g.declared, declared.1.name = edge.target
      ∧ edge.port ∉ declared.2.portList ∧ e = .unknownPort edge.target declared.2 edge.port,
    fun e => (∃ earlier ∈ before, earlier.target = edge.target ∧ earlier.port = edge.port)
      ∧ e = .duplicatePortWiring edge.target edge.port]

/-- Some wire ends in a slot exactly if some edge names its node and its port. -/
theorem place_mem_iff {filters : List Filter} (hnames : g.names.Nodup) {edges : List Edge}
    {wires : List Wire} (h : List.Forall₂ (g.Lays filters) edges wires) {target slot : Nat}
    {filter : Filter} {name port : String} (hname : g.names[target]? = some name)
    (hfilter : filters[target]? = some filter) (hport : filter.portList[slot]? = some port) :
    (target, slot) ∈ wires.map Wire.place ↔ ∃ e ∈ edges, e.target = name ∧ e.port = port := by
  rw [← List.count_pos_iff, count_place hnames h hname hfilter hport, List.countP_pos_iff]
  simp

/-- No edge ends in a port of a node. -/
def PortFault (g : Graph) (declared : Node × Filter) (port : Port) (e : GraphError) : Prop :=
  (∀ edge ∈ g.edges, ¬ (edge.target = declared.1.name ∧ edge.port = port.name))
    ∧ e = .unwiredPort declared.1.name declared.2 port.name

/-- A port is unwired if no wire has been laid to its place. -/
theorem feeder_eq_error_iff {wires : List Wire} {node : Node} {filter : Filter} {target slot : Nat}
    {port : Port} {e : GraphError} : feeder wires node filter target slot port = .error e ↔
      (target, slot) ∉ wires.map Wire.place ∧ e = .unwiredPort node.name filter port.name := by
  have hmem : (wires.find? fun w => w.target == target && w.slot == slot).isSome ↔
      (target, slot) ∈ wires.map Wire.place := by
    simp [Wire.place]
  unfold feeder
  cases hfind : wires.find? fun w => w.target == target && w.slot == slot with
  | none => simp [← hmem, hfind, eq_comm]
  | some w => simp [← hmem, hfind]

section Filters

variable {filters : List Filter} (hfilters : g.filters = .ok filters)
include hfilters

/-- A declared node stands at the place of its name. -/
theorem getElem?_of_mem_declared {declared : Node × Filter} (h : declared ∈ g.declared) {id : Nat}
    (hid : g.names[id]? = some declared.1.name) : filters[id]? = some declared.2 := by
  rw [declared_eq hfilters] at h
  obtain ⟨i, hi⟩ := List.mem_iff_getElem?.mp h
  obtain ⟨hnode, hfilter⟩ := List.getElem?_zip_eq_some.mp hi
  have hname : g.names[i]? = some declared.1.name :=
    getElem?_names_eq_some_iff.mpr ⟨_, hnode, rfl⟩
  obtain rfl := place_unique (filters_eq_ok_iff.mp hfilters).1 hname hid
  exact hfilter

/-- The node at a place is declared with its filter. -/
theorem exists_declared {id : Nat} {name : String} (hid : g.names[id]? = some name) :
    ∃ declared ∈ g.declared, declared.1.name = name ∧ filters[id]? = some declared.2 := by
  obtain ⟨node, hnode, rfl⟩ := getElem?_names_eq_some_iff.mp hid
  have hlen := length_eq_of_map_name_eq (filters_eq_ok_iff.mp hfilters).2
  have hlt : id < filters.length := hlen ▸ (List.getElem?_eq_some_iff.mp hnode).1
  have hfilter := List.getElem?_eq_getElem hlt
  refine ⟨(node, filters[id]), ?_, rfl, hfilter⟩
  rw [declared_eq hfilters]
  exact List.mem_of_getElem? (List.getElem?_zip_eq_some.mpr ⟨hnode, hfilter⟩)

/-- One wire behind others. -/
theorem layWire_eq_error_iff {before : List Edge} {laid : List Wire}
    (hlaid : List.Forall₂ (g.Lays filters) before laid) {edge : Edge} {e : GraphError} :
    g.layWire filters laid edge = .error e ↔ FirstOf (g.edgeFaults before edge) e := by
  have hnames := (filters_eq_ok_iff.mp hfilters).1
  unfold layWire edgeFaults
  refine bind_eq_error_iff (fun e => nodeId_eq_error_iff) fun source _ => ?_
  refine bind_eq_error_iff (fun e => nodeId_eq_error_iff) fun target htarget => ?_
  have hid := (nodeId_eq_ok_iff hnames).mp htarget
  obtain ⟨declared, hmem, hname, hfilter⟩ := exists_declared hfilters hid
  -- The target is one node, so the port is looked for among those of its filter.
  have hport : ∀ {e : GraphError}, (∃ declared ∈ g.declared, declared.1.name = edge.target
      ∧ edge.port ∉ declared.2.portList ∧ e = .unknownPort edge.target declared.2 edge.port) ↔
      edge.port ∉ declared.2.portList ∧ e = .unknownPort edge.target declared.2 edge.port := by
    intro e
    constructor
    · rintro ⟨declared', hmem', hname', h⟩
      have hfilter' := getElem?_of_mem_declared hfilters hmem' (hname' ▸ hid)
      rwa [Option.some.inj (hfilter.symm.trans hfilter')]
    · exact fun h => ⟨declared, hmem, hname, h⟩
  rw [hfilter, Option.getD_some, firstOf_pair_iff]
  simp only [hport]
  cases hslot : declared.2.portIndex? edge.port with
  | none =>
    have hunknown := Filter.portIndex?_eq_none_iff.mp hslot
    simp [hunknown, throw, throwThe, MonadExceptOf.throw, eq_comm]
  | some slot =>
    have hslot := Filter.portIndex?_eq_some_iff.mp hslot
    have hknown : edge.port ∈ declared.2.portList := List.mem_of_getElem? hslot
    have htaken := place_mem_iff hnames hlaid hid hfilter hslot
    have hany : (laid.any fun w => w.target == target && w.slot == slot) = true ↔
        (target, slot) ∈ laid.map Wire.place := by
      simp [Wire.place]
    simp only [hknown, not_true_eq_false, false_and, not_false_eq_true, implies_true, true_and,
      false_or, ← htaken, ← hany]
    split
    · rename_i htaken
      rw [and_iff_right htaken]
      exact error_eq_error_iff
    · rename_i hfree
      simp [hfree, pure, Except.pure]

/-- **Fourth phase.** The first edge is reported of which an end or the port does not exist, or the
    port is taken. -/
theorem wires_eq_error_iff {e : GraphError} : g.wires filters = .error e ↔
    FirstFault (fun before edge => FirstOf (g.edgeFaults before edge)) g.edges e := by
  obtain ⟨hnames, hfilter⟩ := filters_eq_ok_iff.mp hfilters
  have hlen := length_eq_of_map_name_eq hfilter
  unfold Graph.wires
  refine foldlM_eq_error_iff fun before edge laid hbefore e => ?_
  obtain ⟨_, rfl, hlaid, -⟩ := (foldlM_layWire_eq_ok_iff hnames hlen (by simp)).mp hbefore
  exact layWire_eq_error_iff hfilters hlaid

/-- **Fifth phase.** The first port in which no edge ends is reported. -/
theorem inputs_eq_error_iff {wires : List Wire} (hwires : g.wires filters = .ok wires)
    {e : GraphError} : g.inputs filters wires = .error e ↔
      FirstFault (fun _ declared => FirstFault (fun _ => g.PortFault declared) declared.2.ports)
        g.declared e := by
  obtain ⟨hnames, hfilter⟩ := filters_eq_ok_iff.mp hfilters
  have hlen := length_eq_of_map_name_eq hfilter
  have hlays := ((wires_eq_ok_iff hnames hlen).mp hwires).1
  unfold Graph.inputs
  rw [mapM_zipIdx_eq_error_iff, declared_eq hfilters]
  refine firstFault_congr fun before declared after hsplit e => ?_
  dsimp only
  rw [mapM_zipIdx_eq_error_iff]
  refine firstFault_congr fun earlier port later hports e => ?_
  -- The node and the port stand behind those that were looked at before.
  have hzip : (g.nodes.zip filters)[before.length]? = some declared := by
    rw [hsplit, List.getElem?_append_right (Nat.le_refl _), Nat.sub_self]
    rfl
  have hport : declared.2.portList[earlier.length]? = some port.name := by
    rw [Filter.portList, hports, List.map_append, List.getElem?_append_right (by simp)]
    simp
  obtain ⟨hnode, hfilter⟩ := List.getElem?_zip_eq_some.mp hzip
  have hname : g.names[before.length]? = some declared.1.name :=
    getElem?_names_eq_some_iff.mpr ⟨_, hnode, rfl⟩
  simp only [Nat.zero_add, feeder_eq_error_iff, PortFault,
    place_mem_iff hnames hlays hname hfilter hport, not_exists, not_and]

end Filters

end MeshExpr.Graph
