import MeshExpr.Plan.Planner
import MeshExpr.Proofs.Checked

namespace MeshExpr

/-!
# What each phase of planning finds

The planner goes over a graph in phases. For each of them there is one statement here that says when
the phase succeeds and what it has found then, and that does not mention how the phase goes about
it.

* `Graph.filters_eq_ok_iff`, `Graph.params_eq_ok_iff` — the filters and parameters of the nodes.
* `Graph.nodeId_eq_ok_iff` — the place of a name.
* `Graph.Lays` and `Graph.wires_eq_ok_iff` — every edge becomes a wire, and no two wires end in one
  slot.
* `Graph.inputs_eq_ok_iff` — every slot has a wire.
* `Graph.Wired` and `Graph.Layout` — what is known of a graph before and after its nodes are
  ordered.
* `Graph.plan_eq_ok_iff` — the phases one after the other.
-/

/-! ### Parameters and ports of a filter -/

/-- Nothing is wrong with given parameters exactly if they can be read. -/
theorem ParamSpec.violations_eq_nil_iff {spec : ParamSpec} {params : RawParams} :
    spec.violations params = [] ↔ ∃ param, spec.check params = .ok param := by
  unfold violations check
  cases hkeys : spec.foreignKeys params with
  | cons key keys => simp
  | nil =>
    cases hread : spec.read params with
    | error violation => simp
    | ok param => simp

namespace Filter

/-- The names of the ports in order. -/
def portList (f : Filter) : List String := f.ports.map (·.name)

@[simp] theorem length_portList (f : Filter) : f.portList.length = f.ports.length := by
  simp [portList]

/-- The ports of a filter have different names. -/
theorem nodup_portList (f : Filter) : f.portList.Nodup := f.nodup_ports

/-- The index of a port is its place in the list. -/
theorem portIndex?_eq_some_iff {f : Filter} {port : String} {slot : Nat} :
    f.portIndex? port = some slot ↔ f.portList[slot]? = some port :=
  findIdx?_eq_some_iff_of_nodup f.nodup_ports

/-- A filter has no index for a port that it does not have. -/
theorem portIndex?_eq_none_iff {f : Filter} {port : String} :
    f.portIndex? port = none ↔ port ∉ f.portList := by
  rw [Option.eq_none_iff_forall_ne_some, List.mem_iff_getElem?, not_exists]
  exact forall_congr' fun _ => not_congr portIndex?_eq_some_iff

/-- A name is unknown if no filter has it. -/
theorem ofName?_eq_none_iff {name : String} :
    ofName? name = none ↔ ∀ f : Filter, f.name ≠ name := by
  rw [Option.eq_none_iff_forall_ne_some]
  exact forall_congr' fun _ => not_congr ofName?_eq_some_iff

/-- A filter is determined by its name. -/
theorem name_injective : Function.Injective Filter.name := by
  intro f f' h
  exact Option.some.inj ((ofName?_name f).symm.trans (h ▸ ofName?_name f'))

end Filter

namespace Graph

variable {g : Graph}

/-! ### Names and filters -/

/-- The names of the nodes in the order in which they are declared. -/
def names (g : Graph) : List String := g.nodes.map (·.name)

@[simp] theorem length_names (g : Graph) : g.names.length = g.nodes.length := by simp [names]

/-- The name at a place is that of the node at this place. -/
theorem getElem?_names_eq_some_iff {id : Nat} {name : String} :
    g.names[id]? = some name ↔ ∃ node, g.nodes[id]? = some node ∧ node.name = name := by
  rw [names, List.getElem?_map, Option.map_eq_some_iff]

/-- A name that is given once stands at one place. -/
theorem place_unique (h : g.names.Nodup) {i j : Nat} {name : String}
    (hi : g.names[i]? = some name) (hj : g.names[j]? = some name) : i = j :=
  (List.getElem?_inj (List.getElem?_eq_some_iff.mp hi).1 h).mp (hi.trans hj.symm)

/-- The filters are found if the names are new and each filter is known. -/
theorem filtersFrom_eq_ok_iff {seen : List String} {nodes : List Node} {filters : List Filter} :
    filtersFrom seen nodes = .ok filters ↔
      (nodes.map (·.name)).Nodup ∧ (∀ node ∈ nodes, node.name ∉ seen)
        ∧ filters.map (·.name) = nodes.map (·.filter) := by
  induction nodes generalizing seen filters with
  | nil => simp [filtersFrom, eq_comm]
  | cons node rest ih =>
    unfold filtersFrom
    by_cases hseen : node.name ∈ seen
    · simp [hseen]
    · rw [if_neg (by simpa using hseen)]
      cases hfilter : Filter.ofName? node.filter with
      | none =>
        -- No filter has the name, so no list of filters fits the nodes.
        have hnone := Filter.ofName?_eq_none_iff.mp hfilter
        cases filters with
        | nil => simp
        | cons f fs => simp [hnone f]
      | some filter =>
        have hname : filter.name = node.filter := Filter.ofName?_eq_some_iff.mp hfilter
        show filtersFrom (node.name :: seen) rest >>= (fun fs => .ok (filter :: fs))
          = .ok filters ↔ _
        rw [bind_eq_ok_iff]
        simp only [ih, Except.ok.injEq, List.map_cons, List.nodup_cons, List.mem_cons, not_or,
          List.mem_map, not_exists, not_and]
        -- That a later node has another name is said once by `seen` and once by `Nodup`.
        constructor
        · rintro ⟨fs, ⟨hnodup, hnew, hfs⟩, rfl⟩
          refine ⟨⟨fun n hn => (hnew n hn).1, hnodup⟩, ?_, by simp [hname, hfs]⟩
          rintro n (rfl | hn)
          · exact hseen
          · exact (hnew n hn).2
        · rintro ⟨⟨hne, hnodup⟩, hnew, hfs⟩
          cases filters with
          | nil => simp at hfs
          | cons f fs =>
            obtain ⟨hf, hfs⟩ := List.cons.inj hfs
            obtain rfl : f = filter := Filter.name_injective (hf.trans hname.symm)
            exact ⟨fs, ⟨hnodup, fun n hn => ⟨hne n hn, hnew n (.inr hn)⟩, hfs⟩, rfl⟩

/-- **First phase.** No name is given twice, and every node has a filter of the catalog. -/
theorem filters_eq_ok_iff {filters : List Filter} :
    g.filters = .ok filters ↔
      g.names.Nodup ∧ filters.map (·.name) = g.nodes.map (·.filter) := by
  unfold Graph.filters names
  rw [filtersFrom_eq_ok_iff]
  simp

/-- There is one filter for each node. -/
theorem length_eq_of_map_name_eq {filters : List Filter}
    (h : filters.map (·.name) = g.nodes.map (·.filter)) : filters.length = g.nodes.length := by
  simpa using congrArg List.length h

/-- The filter at a place is the one that the node at this place names. -/
theorem getElem?_filters_eq_some_iff {filters : List Filter}
    (h : filters.map (·.name) = g.nodes.map (·.filter)) {id : Nat} {filter : Filter} :
    filters[id]? = some filter ↔ ∃ node, g.nodes[id]? = some node ∧ filter.name = node.filter := by
  have hid : filters[id]?.map (·.name) = g.nodes[id]?.map (·.filter) := by
    rw [← List.getElem?_map, ← List.getElem?_map, h]
  constructor
  · intro hfilter
    rw [hfilter, Option.map_some] at hid
    obtain ⟨node, hnode, hname⟩ := Option.map_eq_some_iff.mp hid.symm
    exact ⟨node, hnode, hname.symm⟩
  · rintro ⟨node, hnode, hname⟩
    rw [hnode, Option.map_some] at hid
    obtain ⟨filter', hfilter', hname'⟩ := Option.map_eq_some_iff.mp hid
    rw [hfilter', Filter.name_injective (hname'.trans hname.symm)]

/-! ### Parameters -/

/-- A node is reviewed without a message if its parameters are accepted. -/
theorem nodeViolations_eq_nil_iff {node : Node} {filter : Filter} :
    nodeViolations node filter = [] ↔ ∃ param, filter.paramSpec.check node.params = .ok param := by
  unfold nodeViolations
  rw [List.map_eq_nil_iff, ParamSpec.violations_eq_nil_iff]

/-- If every element passes a check, the findings are those of the elements in order. -/
private theorem forall₂_filterMap_toOption {α β ε : Type} {check : α → Except ε β} {l : List α}
    (h : ∀ a ∈ l, ∃ b, check a = .ok b) :
    List.Forall₂ (fun a b => check a = .ok b) l (l.filterMap fun a => (check a).toOption) := by
  induction l with
  | nil => exact .nil
  | cons a rest ih =>
    obtain ⟨b, hb⟩ := h a List.mem_cons_self
    have hfound : (check a).toOption = some b := by
      rw [hb]
      rfl
    simp only [List.filterMap_cons, hfound]
    exact .cons hb (ih fun a ha => h a (List.mem_cons_of_mem _ ha))

/-- **Second phase.** Every node has the parameters that its filter wants. -/
theorem params_eq_ok_iff {filters : List Filter} {params : List Param} :
    g.params filters = .ok params ↔
      List.Forall₂ (fun (declared : Node × Filter) param =>
        declared.2.paramSpec.check declared.1.params = .ok param) (g.nodes.zip filters) params := by
  -- A check has one finding at most, so it is enough to know some list of findings.
  have hunique : ∀ {params params'}, List.Forall₂ (fun (declared : Node × Filter) param =>
      declared.2.paramSpec.check declared.1.params = .ok param) (g.nodes.zip filters) params →
      List.Forall₂ (fun (declared : Node × Filter) param =>
        declared.2.paramSpec.check declared.1.params = .ok param) (g.nodes.zip filters) params' →
      params = params' := by
    intro params params' h h'
    exact Except.ok.inj ((mapM_eq_ok_iff.mpr h).symm.trans (mapM_eq_ok_iff.mpr h'))
  unfold Graph.params
  dsimp only
  split
  · rename_i hnone
    have hall : ∀ declared ∈ g.nodes.zip filters, ∃ param,
        declared.2.paramSpec.check declared.1.params = .ok param := fun declared hmem =>
      nodeViolations_eq_nil_iff.mp (List.flatMap_eq_nil_iff.mp hnone declared hmem)
    have hfound := forall₂_filterMap_toOption hall
    exact ⟨fun h => Except.ok.inj h ▸ hfound, fun h => congrArg Except.ok (hunique hfound h)⟩
  · rename_i hsome
    refine ⟨fun h => absurd h (by simp), fun h => absurd ?_ hsome⟩
    refine List.flatMap_eq_nil_iff.mpr fun declared hmem => nodeViolations_eq_nil_iff.mpr ?_
    obtain ⟨i, hi, rfl⟩ := List.getElem_of_mem hmem
    obtain ⟨hlen, hget⟩ := List.forall₂_iff_get.mp h
    exact ⟨_, hget i hi (hlen ▸ hi)⟩

/-! ### Places of names -/

/-- The place of a name, if no name is given twice. -/
theorem nodeId_eq_ok_iff (h : g.names.Nodup) {name : String} {id : Nat} :
    g.nodeId name = .ok id ↔ g.names[id]? = some name := by
  unfold nodeId names
  rw [← findIdx?_eq_some_iff_of_nodup h]
  cases g.nodes.findIdx? (·.name == name) <;> simp

/-! ### Wires -/

/-- Where a wire ends: the node and the slot. -/
def Wire.place (w : Wire) : Nat × Nat := (w.target, w.slot)

/-- A wire between positions is what an edge between names becomes. -/
structure Lays (g : Graph) (filters : List Filter) (e : Edge) (w : Wire) : Prop where
  source : g.names[w.source]? = some e.source
  target : g.names[w.target]? = some e.target
  slot : ∃ filter, filters[w.target]? = some filter ∧ filter.portList[w.slot]? = some e.port

/-- A wire is laid if its edge fits and its place is free. -/
theorem layWire_eq_ok_iff {filters : List Filter} (hnames : g.names.Nodup)
    (hlen : filters.length = g.nodes.length) {laid laid' : List Wire} {e : Edge} :
    g.layWire filters laid e = .ok laid' ↔
      ∃ w, g.Lays filters e w ∧ w.place ∉ laid.map Wire.place ∧ laid' = laid ++ [w] := by
  unfold layWire
  rw [bind_eq_ok_iff]
  simp only [bind_eq_ok_iff, nodeId_eq_ok_iff hnames]
  constructor
  · rintro ⟨source, hsource, target, htarget, h⟩
    -- The target is a declared node, so the filter that is looked up is its own.
    have hlt : target < filters.length := by
      rw [hlen, ← length_names]
      exact (List.getElem?_eq_some_iff.mp htarget).1
    rw [List.getElem?_eq_getElem hlt, Option.getD_some] at h
    split at h
    · exact absurd h (by simp [throw, throwThe, MonadExceptOf.throw])
    · rename_i slot hslot
      split at h
      · exact absurd h (by simp [throw, throwThe, MonadExceptOf.throw])
      · rename_i hfree
        refine ⟨⟨source, target, slot⟩, ⟨hsource, htarget, _, List.getElem?_eq_getElem hlt,
          Filter.portIndex?_eq_some_iff.mp hslot⟩, ?_, (Except.ok.inj h).symm⟩
        simpa [Wire.place, Prod.ext_iff] using hfree
  · rintro ⟨w, ⟨hsource, htarget, filter, hfilter, hslot⟩, hfree, rfl⟩
    refine ⟨w.source, hsource, w.target, htarget, ?_⟩
    rw [hfilter, Option.getD_some, Filter.portIndex?_eq_some_iff.mpr hslot]
    dsimp only
    rw [if_neg (by simpa [Wire.place, Prod.ext_iff] using hfree)]
    rfl

/-- All wires are laid if each edge fits and no place is taken twice. -/
theorem foldlM_layWire_eq_ok_iff {filters : List Filter} (hnames : g.names.Nodup)
    (hlen : filters.length = g.nodes.length) {edges : List Edge} {laid wires : List Wire}
    (hlaid : (laid.map Wire.place).Nodup) :
    edges.foldlM (g.layWire filters) laid = .ok wires ↔
      ∃ new, wires = laid ++ new ∧ List.Forall₂ (g.Lays filters) edges new
        ∧ (wires.map Wire.place).Nodup := by
  induction edges generalizing laid with
  | nil =>
    rw [List.foldlM_nil]
    simp only [List.forall₂_nil_left_iff]
    constructor
    · intro h
      obtain rfl := Except.ok.inj h
      exact ⟨[], by simp, rfl, hlaid⟩
    · rintro ⟨new, rfl, rfl, -⟩
      rw [List.append_nil]
      rfl
  | cons e rest ih =>
    rw [List.foldlM_cons, bind_eq_ok_iff]
    simp only [layWire_eq_ok_iff hnames hlen, List.forall₂_cons_left_iff]
    constructor
    · rintro ⟨_, ⟨w, hw, hfree, rfl⟩, hrest⟩
      have hlaid' : ((laid ++ [w]).map Wire.place).Nodup := by
        rw [List.map_append, List.map_singleton, ← List.concat_eq_append]
        exact hlaid.concat hfree
      obtain ⟨new, rfl, hnew, hnodup⟩ := (ih hlaid').mp hrest
      exact ⟨w :: new, by simp, ⟨w, new, hw, hnew, rfl⟩, hnodup⟩
    · rintro ⟨_, rfl, ⟨w, new, hw, hnew, rfl⟩, hnodup⟩
      have hsplit : laid ++ w :: new = (laid ++ [w]) ++ new := by simp
      have hlaid' : ((laid ++ [w]).map Wire.place).Nodup := by
        rw [hsplit, List.map_append] at hnodup
        exact hnodup.of_append_left
      -- The slot of the wire was free, or it would stand twice among the slots.
      refine ⟨_, ⟨w, hw, fun hmem => ?_, rfl⟩, (ih hlaid').mpr ⟨new, hsplit, hnew, hnodup⟩⟩
      rw [List.map_append, List.nodup_append] at hlaid'
      exact hlaid'.2.2 _ hmem _ (by simp) rfl

/-- **Fourth phase.** Every edge becomes a wire, and no two wires end in one slot. -/
theorem wires_eq_ok_iff {filters : List Filter} (hnames : g.names.Nodup)
    (hlen : filters.length = g.nodes.length) {wires : List Wire} :
    g.wires filters = .ok wires ↔
      List.Forall₂ (g.Lays filters) g.edges wires ∧ (wires.map Wire.place).Nodup := by
  unfold Graph.wires
  rw [foldlM_layWire_eq_ok_iff hnames hlen (by simp)]
  simp

/-! ### Inputs -/

/-- The feeder of a port is where the only wire to it begins. -/
theorem feeder_eq_ok_iff {wires : List Wire} (h : (wires.map Wire.place).Nodup) {node : Node}
    {filter : Filter} {source target slot : Nat} {port : Port} :
    feeder wires node filter target slot port = .ok source ↔ ⟨source, target, slot⟩ ∈ wires := by
  unfold feeder
  cases hfind : wires.find? fun w => w.target == target && w.slot == slot with
  | none =>
    refine ⟨fun h => absurd h (by simp), fun hmem => ?_⟩
    exact absurd (List.find?_eq_none.mp hfind _ hmem) (by simp)
  | some w =>
    have hmem : w ∈ wires := List.mem_of_find?_eq_some hfind
    have hplace : w.place = (target, slot) := by
      simpa [Wire.place, Prod.ext_iff] using List.find?_some hfind
    constructor
    · intro hw
      obtain rfl := Except.ok.inj hw
      obtain ⟨rfl, rfl⟩ := Prod.mk.inj hplace
      exact hmem
    · intro hmem'
      -- There is one wire for each place.
      obtain rfl : w = ⟨source, target, slot⟩ :=
        List.inj_on_of_nodup_map h hmem hmem' hplace
      rfl

/-- **Fifth phase.** Every slot of every node has a wire, and its input is where the wire begins. -/
theorem inputs_eq_ok_iff {filters : List Filter} (hlen : filters.length = g.nodes.length)
    {wires : List Wire} (hwires : (wires.map Wire.place).Nodup) {wiring : Wiring} :
    g.inputs filters wires = .ok wiring ↔ wiring.length = g.nodes.length ∧
      ∀ (target : Nat) filter inputs, filters[target]? = some filter →
        wiring[target]? = some inputs → inputs.length = filter.ports.length ∧
          ∀ (slot : Nat) source, inputs[slot]? = some source → ⟨source, target, slot⟩ ∈ wires := by
  unfold Graph.inputs
  simp only [mapM_eq_ok_iff, forall₂_iff_getElem?, List.length_zipIdx, List.length_zip, hlen,
    Nat.min_self, List.getElem?_zipIdx, Nat.zero_add]
  refine and_congr eq_comm ⟨fun h target filter inputs hfilter hinputs => ?_,
    fun h target declared inputs hdeclared hinputs => ?_⟩
  · have hlt : target < g.nodes.length := hlen ▸ (List.getElem?_eq_some_iff.mp hfilter).1
    -- From the wiring to the wires: what stands in a slot was found by its feeder.
    have hdeclared : (g.nodes.zip filters)[target]? = some (g.nodes[target], filter) := by
      rw [List.getElem?_zip_eq_some]
      exact ⟨List.getElem?_eq_getElem hlt, hfilter⟩
    obtain ⟨hports, hfed⟩ := h target _ inputs (by rw [hdeclared]; rfl) hinputs
    refine ⟨hports.symm, fun slot source hsource => ?_⟩
    have hslot : slot < filter.ports.length :=
      hports ▸ (List.getElem?_eq_some_iff.mp hsource).1
    have := hfed slot _ source (by rw [List.getElem?_eq_getElem hslot]; rfl) hsource
    exact (feeder_eq_ok_iff hwires).mp this
  · rw [Option.map_eq_some_iff] at hdeclared
    obtain ⟨⟨node, filter⟩, hzip, rfl⟩ := hdeclared
    obtain ⟨-, hfilter⟩ := List.getElem?_zip_eq_some.mp hzip
    obtain ⟨hports, hfed⟩ := h target filter inputs hfilter hinputs
    refine ⟨hports.symm, fun slot port source hport hsource => ?_⟩
    rw [Option.map_eq_some_iff] at hport
    obtain ⟨port, -, rfl⟩ := hport
    exact (feeder_eq_ok_iff hwires).mpr (hfed slot source hsource)

/-- The fifth phase succeeds if every slot of every node has a wire. -/
theorem exists_inputs_eq_ok_iff {filters : List Filter} (hlen : filters.length = g.nodes.length)
    {wires : List Wire} (hwires : (wires.map Wire.place).Nodup) :
    (∃ wiring, g.inputs filters wires = .ok wiring) ↔
      ∀ (target : Nat) filter, filters[target]? = some filter → ∀ slot < filter.ports.length,
        ∃ source, ⟨source, target, slot⟩ ∈ wires := by
  unfold Graph.inputs
  simp only [exists_mapM_eq_ok_iff, feeder_eq_ok_iff hwires, Prod.forall,
    List.mem_zipIdx_iff_getElem?, List.getElem?_zip_eq_some]
  constructor
  · intro h target filter hfilter slot hslot
    have hlt : target < g.nodes.length := hlen ▸ (List.getElem?_eq_some_iff.mp hfilter).1
    exact h _ filter target ⟨List.getElem?_eq_getElem hlt, hfilter⟩ _ slot
      (List.getElem?_eq_getElem hslot)
  · intro h node filter target hdeclared port slot hport
    exact h target filter hdeclared.2 slot (List.getElem?_eq_some_iff.mp hport).1

/-! ### All phases -/

/-- The planner orders a graph if the scheduler does. -/
theorem orderOf_eq_ok_iff {wiring : Wiring} {order : List Nat} :
    g.orderOf wiring = .ok order ↔ schedule wiring = .ok order := by
  unfold orderOf
  cases schedule wiring <;> simp

/-- What the phases of planning have found in a graph before its nodes are put in order. -/
structure Wired (g : Graph) where
  filters : List Filter
  params : List Param
  output : Nat
  wires : List Wire
  wiring : Wiring
  nodes_ne_nil : g.nodes ≠ []
  filters_eq : g.filters = .ok filters
  params_eq : g.params filters = .ok params
  output_eq : g.nodeId g.output = .ok output
  wires_eq : g.wires filters = .ok wires
  wiring_eq : g.inputs filters wires = .ok wiring

/-- What the phases of planning have found in a graph that has a plan. -/
structure Layout (g : Graph) extends Wired g where
  order : List Nat
  order_eq : g.orderOf wiring = .ok order

namespace Layout

/-- The plan that is made of the findings. -/
def plan (l : g.Layout) : Plan :=
  ⟨g.name, g.plannedNodes l.filters l.params l.wiring, l.order, l.output⟩

/-- The counts that go with the plan. -/
def manifest (l : g.Layout) : Manifest where
  nodeCount := g.nodes.length
  edgeCount := g.edges.length
  collectiveCount := l.filters.countP (·.isCollective)
  depth := (depths l.wiring l.order)[l.output]?.getD 0

end Layout

/-- **All phases.** A graph has a plan if every phase finds something, and the plan is made of what
    they have found. -/
theorem plan_eq_ok_iff {planned : Plan × Manifest} :
    g.plan = .ok planned ↔ ∃ l : g.Layout, planned = (l.plan, l.manifest) := by
  unfold Graph.plan
  by_cases hempty : g.nodes = []
  · have hnone : ∀ l : g.Layout, False := fun l => l.nodes_ne_nil hempty
    simp only [hempty, List.isEmpty_nil, if_true]
    exact ⟨fun h => absurd h (by simp [throw, throwThe, MonadExceptOf.throw, bind, Except.bind]),
      fun ⟨l, _⟩ => (hnone l).elim⟩
  · rw [if_neg (by simpa using hempty)]
    -- Every phase must succeed, and what they find makes up the layout.
    simp only [bind_eq_ok_iff]
    constructor
    · rintro ⟨filters, hfilters, params, hparams, output, houtput, wires, hwires, wiring, hwiring,
        order, horder, h⟩
      exact ⟨⟨⟨filters, params, output, wires, wiring, hempty, hfilters, hparams, houtput, hwires,
        hwiring⟩, order, horder⟩, (Except.ok.inj h).symm⟩
    · rintro ⟨l, rfl⟩
      exact ⟨_, l.filters_eq, _, l.params_eq, _, l.output_eq, _, l.wires_eq, _, l.wiring_eq, _,
        l.order_eq, rfl⟩

end Graph

end MeshExpr
