import MeshExpr.Proofs.Evaluation.Run

namespace MeshExpr

/-!
# What a graph means

The meaning of a node is what its filter computes from the meanings of the nodes that feed it. It is
said here for the names and edges of a graph, without positions, an order or an array of values, and
then compared with the evaluation of the plan.

* `Graph.Means` — the meaning of a node, and `Graph.Layout.means_unique`: there is at most one.
* `Graph.Layout.outcome_means` — one step: a node that runs after all its inputs computes its
  meaning, if their values are their meanings.
* `Graph.Layout.means_of_valuesAfter` — the whole run: every value is the meaning of its node.
* `Graph.realizedBy_of_plan` — the evaluation of a plan gives the meaning of its graph, whatever
  schedule it follows.
-/

namespace Graph

/-- **The meaning of a node** is what its filter computes, on a rank alone, from its parameter and
    the meanings of the nodes that feed its ports, in the order of the ports. A node that is fed by
    one that fails or has no meaning has none either. -/
inductive Means (g : Graph) (ctx : Context) : String → Except EvalError Value → Prop where
  | node {declared : Node} {filter : Filter} {param : Param} {producer : String → String}
      {args : List Value} (declared_mem : declared ∈ g.nodes)
      (registered : filter.name = declared.filter)
      (checked : filter.paramSpec.check declared.params = .ok param)
      (wired : ∀ port ∈ filter.portList, ⟨producer port, declared.name, port⟩ ∈ g.edges)
      (length_args : args.length = filter.portList.length)
      (args_mean : ∀ (slot : Nat) port arg, filter.portList[slot]? = some port →
        args[slot]? = some arg → Means g ctx (producer port) (.ok arg)) :
      Means g ctx declared.name (filter.compute ctx args param).run.runAlone

variable {g : Graph} {ctx : Context}

namespace Layout

variable (l : g.Layout)

/-! ### Meanings and positions -/

/-- An edge that ends at a port of a node comes from the node that is the input of this port. -/
theorem mem_edges_iff_input {id : Nat} {node : PlannedNode} (hnode : l.plan.nodes[id]? = some node)
    {slot : Nat} {port : String} (hport : node.filter.portList[slot]? = some port)
    {source : String} :
    ⟨source, node.name, port⟩ ∈ g.edges ↔ ∃ i producer, node.inputs[slot]? = some i
      ∧ l.plan.nodes[i]? = some producer ∧ producer.name = source := by
  obtain ⟨-, declared, hdeclared, hname, hfilter, -, hinputs⟩ := l.getElem?_plan_nodes.mp hnode
  have hid : g.names[id]? = some node.name :=
    getElem?_names_eq_some_iff.mpr ⟨declared, hdeclared, hname.symm⟩
  have hinputsOf : l.wiring.inputsOf id = node.inputs := by
    rw [Wiring.inputsOf, hinputs, Option.getD_some]
  constructor
  · intro he
    obtain ⟨i, target, slot', hlays, hinput⟩ := l.mem_edges_iff.mp he
    -- The edge ends in this very slot, since it names the node and the port.
    have hplace := (hlays.place_eq_iff l.names_nodup hid hfilter hport).mpr ⟨rfl, rfl⟩
    obtain ⟨rfl, rfl⟩ := Prod.mk.inj hplace
    obtain ⟨declared', hdeclared', hname'⟩ := getElem?_names_eq_some_iff.mp hlays.source
    obtain ⟨producer, hproducer, hname''⟩ := l.exists_plan_node hdeclared'
    exact ⟨i, producer, hinputsOf ▸ hinput, hproducer, hname''.trans hname'⟩
  · rintro ⟨i, producer, hinput, hproducer, rfl⟩
    obtain ⟨-, declared', hdeclared', hname', -⟩ := l.getElem?_plan_nodes.mp hproducer
    have hsource : g.names[i]? = some producer.name :=
      getElem?_names_eq_some_iff.mpr ⟨declared', hdeclared', hname'.symm⟩
    exact l.mem_edges_iff.mpr ⟨i, id, slot, ⟨hsource, hid, node.filter, hfilter, hport⟩,
      hinputsOf ▸ hinput⟩

/-- A node means what its filter computes from the meanings of its inputs. -/
theorem means_of_inputs {id : Nat} {node : PlannedNode} (hnode : l.plan.nodes[id]? = some node)
    {args : List Value} (hargs : List.Forall₂ (fun i arg => ∃ producer,
      l.plan.nodes[i]? = some producer ∧ g.Means ctx producer.name (.ok arg)) node.inputs args) :
    g.Means ctx node.name (node.filter.compute ctx args node.param).run.runAlone := by
  obtain ⟨hlen, hmeans⟩ := forall₂_iff_getElem?.mp hargs
  obtain ⟨-, declared, hdeclared, hname, hregistered, hchecked⟩ := l.image.node id node hnode
  have hports : node.inputs.length = node.filter.portList.length := by
    rw [l.image.length_inputs node (List.mem_of_getElem? hnode), Filter.length_portList]
  -- Every port has an input, and an edge comes from there.
  have hsource : ∀ port, ∃ source, port ∈ node.filter.portList →
      ⟨source, node.name, port⟩ ∈ g.edges := by
    intro port
    by_cases hport : port ∈ node.filter.portList
    · obtain ⟨slot, hslot⟩ := List.mem_iff_getElem?.mp hport
      have hlt := (List.getElem?_eq_some_iff.mp hslot).1
      have hi := List.getElem?_eq_getElem (hports ▸ hlt : slot < node.inputs.length)
      have hmem := l.image.inputs_lt node (List.mem_of_getElem? hnode) _ (List.mem_of_getElem? hi)
      exact ⟨_, fun _ => (l.mem_edges_iff_input hnode hslot).mpr
        ⟨_, _, hi, List.getElem?_eq_getElem hmem, rfl⟩⟩
    · exact ⟨"", fun h => absurd h hport⟩
  choose producer hwired using hsource
  rw [hname] at hwired ⊢
  refine .node (List.mem_of_getElem? hdeclared) (Filter.ofName?_eq_some_iff.mp hregistered) hchecked
    hwired (hlen ▸ hports) fun slot port arg hport harg => ?_
  have hedge := hwired port (List.mem_of_getElem? hport)
  rw [← hname] at hedge
  obtain ⟨i, node', hi, hnode', hname'⟩ := (l.mem_edges_iff_input hnode hport).mp hedge
  obtain ⟨node'', hnode'', harg⟩ := hmeans slot i arg hi harg
  obtain rfl : node' = node'' := Option.some.inj (hnode'.symm.trans hnode'')
  exact hname' ▸ harg

/-- A node has at most one meaning. -/
theorem means_unique (l : g.Layout) {name : String} {r r' : Except EvalError Value}
    (h : g.Means ctx name r) (h' : g.Means ctx name r') : r = r' := by
  induction h generalizing r' with
  | @node declared filter param producer args hmem hregistered hchecked hwired hlen _ ih =>
    generalize hname : declared.name = name at h'
    cases h' with
    | @node declared' filter' param' producer' args' hmem' hregistered' hchecked' hwired' hlen'
        hargs' =>
      -- Both say the same: the node, its filter and parameter, and what feeds it are unique.
      obtain rfl : declared = declared' := List.inj_on_of_nodup_map l.names_nodup hmem hmem' hname
      obtain rfl : filter = filter' := Filter.name_injective (hregistered.trans hregistered'.symm)
      obtain rfl : param = param' := Except.ok.inj (hchecked.symm.trans hchecked')
      have hproducer : ∀ port ∈ filter.portList, producer port = producer' port := by
        intro port hport
        have hsame := l.image.slot_bijOn.injOn (hwired port hport) (hwired' port hport) rfl
        exact (Edge.mk.inj hsame).1
      have hargs : args = args' := by
        refine List.ext_getElem (hlen.trans hlen'.symm) fun slot hslot hslot' => ?_
        have hport := List.getElem?_eq_getElem (hlen ▸ hslot : slot < filter.portList.length)
        have hmeans := hargs' slot _ _ hport (List.getElem?_eq_getElem hslot')
        rw [← hproducer _ (List.mem_of_getElem? hport)] at hmeans
        exact Except.ok.inj (ih slot _ _ hport (List.getElem?_eq_getElem hslot) hmeans)
      rw [hargs]

/-! ### Runs compute meanings -/

variable {order : List Nat}

/-- In a schedule the inputs of a node come before it. -/
theorem mem_of_input (horder : l.wiring.IsSchedule order) {before after : List Nat} {id : Nat}
    (heq : order = before ++ id :: after) {node : PlannedNode}
    (hnode : l.plan.nodes[id]? = some node) {i : Nat} (hi : i ∈ node.inputs) : i ∈ before := by
  obtain ⟨-, declared, -, -, -, -, hinputs⟩ := l.getElem?_plan_nodes.mp hnode
  refine horder.ordered before id after heq i ?_
  rwa [Wiring.inputsOf, hinputs, Option.getD_some]

/-- **One step.** If the values of all nodes that have run are their meanings, the next node of a
    schedule computes its meaning. -/
theorem outcome_means (horder : l.wiring.IsSchedule order) {before after : List Nat} {id : Nat}
    (heq : order = before ++ id :: after) {node : PlannedNode}
    (hnode : l.plan.nodes[id]? = some node) {values : List Value}
    (hbefore : ∀ i ∈ before, ∃ producer, l.plan.nodes[i]? = some producer
      ∧ g.Means ctx producer.name (.ok (Plan.valueAt values i))) :
    g.Means ctx node.name (node.outcome ctx values) := by
  refine l.means_of_inputs hnode (List.forall₂_map_right_iff.mpr ?_)
  exact List.forall₂_same.mpr fun i hi => hbefore i (l.mem_of_input horder heq hnode hi)

/-- Every entry of a schedule is a node. -/
theorem lt_length_of_mem (horder : l.wiring.IsSchedule order) {id : Nat} (h : id ∈ order) :
    id < l.plan.nodes.length := by
  rw [l.length_plan_nodes, ← l.length_wiring]
  exact horder.mem_iff.mp h

/-- **The whole run.** When the first nodes of a schedule have run, the value of each of them is its
    meaning. -/
theorem means_of_valuesAfter (horder : l.wiring.IsSchedule order) {ids rest : List Nat}
    (heq : order = ids ++ rest) {values : List Value}
    (h : l.plan.valuesAfter ctx ids = .ok values) {i : Nat} (hi : i ∈ ids) :
    ∃ producer, l.plan.nodes[i]? = some producer
      ∧ g.Means ctx producer.name (.ok (Plan.valueAt values i)) := by
  induction hn : ids.length using Nat.strong_induction_on generalizing ids rest values i with
  | _ n ih =>
    have hnodup : ids.Nodup := (heq ▸ horder.nodup).of_append_left
    have hlt : ∀ id ∈ ids, id < l.plan.nodes.length := fun id hid =>
      l.lt_length_of_mem horder (heq ▸ List.mem_append_left _ hid)
    obtain ⟨earlier, later, producer, before, rfl, hproducer, hbefore, hvalue⟩ :=
      Plan.exists_outcome_of_mem hnodup hlt h hi
    refine ⟨producer, hproducer, ?_⟩
    rw [← hvalue]
    -- When the node ran, fewer nodes had run, so the values it was given are meanings.
    have heq' : order = earlier ++ i :: (later ++ rest) := by simpa using heq
    have hshorter : earlier.length < n := by
      rw [← hn]
      simp
    exact l.outcome_means horder heq' hproducer fun j hj =>
      ih _ hshorter heq' hbefore hj rfl

/-- A run along a schedule that fails does so at its first node that means a failure. -/
theorem exists_of_evaluateAlone_eq_error (horder : l.wiring.IsSchedule order) {f : Failure}
    (h : (l.plan.reorder order).evaluateAlone ctx = .error f) :
    ∃ before id after node e, order = before ++ id :: after ∧ l.plan.nodes[id]? = some node
      ∧ (∀ i ∈ before, ∃ earlier v, l.plan.nodes[i]? = some earlier
        ∧ g.Means ctx earlier.name (.ok v))
      ∧ g.Means ctx node.name (.error e) ∧ f = ⟨g.name, node.name, node.filter, e⟩ := by
  obtain ⟨before, id, after, node, values, e, heq, hnode, hbefore, he, rfl⟩ :=
    Plan.exists_of_valuesAfter_eq_error (p := l.plan) (fun _ => l.lt_length_of_mem horder)
      (Plan.evaluateAlone_eq_error_iff.mp h)
  -- The nodes before it have run, and their values are their meanings.
  have hmeans : ∀ i ∈ before, ∃ producer, l.plan.nodes[i]? = some producer
      ∧ g.Means ctx producer.name (.ok (Plan.valueAt values i)) := fun i hi =>
    l.means_of_valuesAfter horder heq hbefore hi
  refine ⟨before, id, after, node, e, heq, hnode, fun i hi => ?_, ?_, rfl⟩
  · obtain ⟨producer, hproducer, hvalue⟩ := hmeans i hi
    exact ⟨producer, _, hproducer, hvalue⟩
  · rw [← he]
    exact l.outcome_means horder heq hnode hmeans

/-- If a run along a schedule succeeds, every node has a meaning without a failure, and the value is
    the meaning of the output. -/
theorem means_of_evaluateAlone_eq_ok (horder : l.wiring.IsSchedule order) {v : Value}
    (h : (l.plan.reorder order).evaluateAlone ctx = .ok v) :
    (∀ node ∈ g.nodes, ∃ v, g.Means ctx node.name (.ok v)) ∧ g.Means ctx g.output (.ok v) := by
  obtain ⟨values, hvalues, rfl⟩ := Plan.evaluateAlone_eq_ok_iff.mp h
  have hmeans : ∀ {id : Nat} {declared : Node}, g.nodes[id]? = some declared →
      g.Means ctx declared.name (.ok (Plan.valueAt values id)) := by
    intro id declared hdeclared
    -- A schedule holds every node, also those that the output does not need.
    have hid : id ∈ order := by
      rw [horder.mem_iff, l.length_wiring]
      exact (List.getElem?_eq_some_iff.mp hdeclared).1
    obtain ⟨node, hnode, hvalue⟩ :=
      l.means_of_valuesAfter horder (List.append_nil order).symm hvalues hid
    obtain ⟨node', hnode', hname⟩ := l.exists_plan_node hdeclared
    obtain rfl : node = node' := Option.some.inj (hnode.symm.trans hnode')
    exact hname ▸ hvalue
  constructor
  · intro node hnode
    obtain ⟨id, hid⟩ := List.mem_iff_getElem?.mp hnode
    exact ⟨_, hmeans hid⟩
  · obtain ⟨declared, hdeclared, hname⟩ :=
      getElem?_names_eq_some_iff.mp l.getElem?_names_output
    exact hname ▸ hmeans hdeclared

/-- **Every schedule gives the meaning of the graph.** -/
theorem evaluateAlone_eq_ok_iff (horder : l.wiring.IsSchedule order) {v : Value} :
    (l.plan.reorder order).evaluateAlone ctx = .ok v ↔
      (∀ node ∈ g.nodes, ∃ v, g.Means ctx node.name (.ok v)) ∧ g.Means ctx g.output (.ok v) := by
  refine ⟨l.means_of_evaluateAlone_eq_ok horder, ?_⟩
  rintro ⟨hall, houtput⟩
  cases h : (l.plan.reorder order).evaluateAlone ctx with
  | ok v' =>
    obtain ⟨-, houtput'⟩ := l.means_of_evaluateAlone_eq_ok horder h
    exact congrArg _ (Except.ok.inj (l.means_unique houtput' houtput))
  | error f =>
    obtain ⟨before, id, after, node, e, -, hnode, -, hfails, -⟩ :=
      l.exists_of_evaluateAlone_eq_error horder h
    -- The node that fails cannot mean a value as well.
    obtain ⟨-, declared, hdeclared, hname, -⟩ := l.getElem?_plan_nodes.mp hnode
    obtain ⟨v, hv⟩ := hall declared (List.mem_of_getElem? hdeclared)
    exact absurd (l.means_unique (hname ▸ hfails) hv) (by simp)

end Layout

/-! ### Evaluation refines meaning -/

/-- The evaluation of a plan, on a rank alone, gives the meaning of a graph. -/
structure RealizedBy (g : Graph) (p : Plan) (ctx : Context) : Prop where
  /-- A node has at most one meaning. -/
  unique : ∀ name r r', g.Means ctx name r → g.Means ctx name r' → r = r'
  /-- The evaluation succeeds if every node, also one that the output does not depend on, has a
      meaning without a failure; the value is then the meaning of the output. -/
  ok_iff : ∀ v, p.evaluateAlone ctx = .ok v ↔
    (∀ node ∈ g.nodes, ∃ v, g.Means ctx node.name (.ok v)) ∧ g.Means ctx g.output (.ok v)
  /-- Otherwise it reports the first node in the order of execution whose filter fails. -/
  error : ∀ f, p.evaluateAlone ctx = .error f → ∃ before id after node e,
    p.order = before ++ id :: after ∧ p.nodes[id]? = some node
      ∧ (∀ i ∈ before, ∃ earlier v, p.nodes[i]? = some earlier ∧ g.Means ctx earlier.name (.ok v))
      ∧ g.Means ctx node.name (.error e) ∧ f = ⟨g.name, node.name, node.filter, e⟩
  /-- Each argument of a filter is what the filter of its producer has computed earlier in the same
      evaluation. -/
  argument : ∀ before id after node values, p.order = before ++ id :: after →
    p.nodes[id]? = some node → p.valuesAfter ctx before = .ok values → ∀ i ∈ node.inputs,
      ∃ earlier later producer values', before = earlier ++ i :: later
        ∧ p.nodes[i]? = some producer ∧ p.valuesAfter ctx earlier = .ok values'
        ∧ producer.outcome ctx values' = .ok (Plan.valueAt values i)
  /-- Another order that respects the wiring gives the same value, or fails as well. -/
  reorder : ∀ order, p.wiring.IsSchedule order → ∀ v,
    (p.reorder order).evaluateAlone ctx = .ok v ↔ p.evaluateAlone ctx = .ok v

/-- Each argument of a filter comes from its producer. -/
theorem Layout.exists_outcome_of_input (l : g.Layout) {before after : List Nat} {id : Nat}
    (heq : l.order = before ++ id :: after) {node : PlannedNode}
    (hnode : l.plan.nodes[id]? = some node) {values : List Value}
    (h : l.plan.valuesAfter ctx before = .ok values) {i : Nat} (hi : i ∈ node.inputs) :
    ∃ earlier later producer values', before = earlier ++ i :: later
      ∧ l.plan.nodes[i]? = some producer ∧ l.plan.valuesAfter ctx earlier = .ok values'
      ∧ producer.outcome ctx values' = .ok (Plan.valueAt values i) := by
  have hnodup : before.Nodup := (heq ▸ l.isSchedule.nodup).of_append_left
  have hlt : ∀ j ∈ before, j < l.plan.nodes.length := fun j hj =>
    l.lt_length_of_mem l.isSchedule (heq ▸ List.mem_append_left _ hj)
  exact Plan.exists_outcome_of_mem hnodup hlt h (l.mem_of_input l.isSchedule heq hnode hi)

/-- **The evaluation of a plan refines the meaning of its graph.** -/
theorem realizedBy_of_plan {g : Graph} {p : Plan} {m : Manifest} (h : g.plan = .ok (p, m))
    (ctx : Context) : g.RealizedBy p ctx := by
  obtain ⟨l, hl⟩ := plan_eq_ok_iff.mp h
  obtain ⟨rfl, rfl⟩ := Prod.mk.inj hl
  exact {
    unique := fun _ _ _ => l.means_unique
    ok_iff := fun v => l.evaluateAlone_eq_ok_iff l.isSchedule
    error := fun f => l.exists_of_evaluateAlone_eq_error l.isSchedule
    argument := fun _ _ _ _ _ heq hnode hrun _ => l.exists_outcome_of_input heq hnode hrun
    reorder := fun order horder v => by
      rw [l.plan_wiring] at horder
      rw [l.evaluateAlone_eq_ok_iff horder]
      exact (l.evaluateAlone_eq_ok_iff l.isSchedule).symm }

/-- A node that two ports are wired to. -/
theorem realizedBy_doubledPlan :
    doubled.plan = .ok (doubledPlan, ⟨2, 2, 0, 2⟩) ∧ doubled.RealizedBy doubledPlan default :=
  ⟨by rfl, realizedBy_of_plan (by rfl) default⟩

/-- The sum of `doubled` is computed from a value that is computed once. -/
example : doubledPlan.evaluateAlone default = .ok (.int 2) := by rfl

end Graph

end MeshExpr
