import MeshExpr.Proofs.Planning.Cycle
import MeshExpr.Proofs.Planning.Faults

namespace MeshExpr.Graph

open Relation

/-!
# Graphs that are rejected

The error of a graph without a plan is the first fault that is found in it. The checks are listed
here in their order, and with the list it can be told for every graph, whatever is wrong with it,
which error it gets.

* `checks` and `OrderFault` — all that is looked for, and `Rejected` — the first fault of these.
* `nonempty_wired_iff` — the phases before the ordering succeed exactly if no check finds a fault.
* `plan_eq_error_iff` — the planner reports the first fault.
* `cycleReport_of_plan` — a graph with no other fault than a cycle gets a report of all nodes that
  cannot run.
-/

variable {g : Graph}

/-- What is looked for before the nodes are put in order. -/
def checks (g : Graph) : List (GraphError → Prop) :=
  [fun e => g.nodes = [] ∧ e = .emptyGraph g.name,
    FirstFault (fun before node => FirstOf (nodeFaults (before.map (·.name)) node)) g.nodes,
    g.ParamsFault,
    fun e => g.output ∉ g.names ∧ e = .unknownNode g.output,
    FirstFault (fun before edge => FirstOf (g.edgeFaults before edge)) g.edges,
    FirstFault (fun _ declared => FirstFault (fun _ => g.PortFault declared) declared.2.ports)
      g.declared]

open scoped Classical in
/-- Some nodes wait for each other; with them all those are reported that wait for them. -/
def OrderFault (g : Graph) (e : GraphError) : Prop :=
  (∃ name, TransGen g.Feeds name name)
    ∧ e = .cyclicGraph (g.names.filter fun name => Entangled g.Feeds name)

/-- The error is the first fault of a graph. -/
def Rejected (g : Graph) (e : GraphError) : Prop := FirstOf (g.checks ++ [g.OrderFault]) e

/-- **The planner reports the first fault.** -/
theorem plan_eq_error_iff {e : GraphError} : g.plan = .error e ↔ g.Rejected e := by
  unfold Graph.plan Rejected checks
  by_cases hempty : g.nodes = []
  · simp [hempty, FirstOf, throw, throwThe, MonadExceptOf.throw, bind, Except.bind, eq_comm]
  · rw [if_neg (by simpa using hempty), List.cons_append, FirstOf]
    simp only [hempty, false_and, false_or, not_false_eq_true, implies_true, true_and]
    -- The faults of a phase are known once the phases before it are known to have succeeded.
    refine bind_eq_error_iff (fun e => filters_eq_error_iff) fun filters hfilters => ?_
    refine bind_eq_error_iff (fun e => params_eq_error_iff hfilters) fun params hparams => ?_
    refine bind_eq_error_iff (fun e => nodeId_eq_error_iff) fun output houtput => ?_
    refine bind_eq_error_iff (fun e => wires_eq_error_iff hfilters) fun wires hwires => ?_
    refine bind_eq_error_iff (fun e => inputs_eq_error_iff hfilters hwires) fun wiring hwiring => ?_
    let l : g.Wired := ⟨filters, params, output, wires, wiring, hempty, hfilters, hparams, houtput,
      hwires, hwiring⟩
    refine bind_eq_error_iff (fun e => l.orderOf_eq_error_iff) fun order _ => ?_
    simp [FirstOf, pure, Except.pure]

/-- The phases before the ordering succeed exactly if no check finds a fault. -/
theorem nonempty_wired_iff : Nonempty g.Wired ↔ ∀ fault ∈ g.checks, ∀ e, ¬ fault e := by
  unfold checks
  simp only [List.forall_mem_cons, List.not_mem_nil, false_imp_iff, implies_true, and_true]
  constructor
  · rintro ⟨l⟩
    exact ⟨fun e h => l.nodes_ne_nil h.1,
      (exists_eq_ok_iff fun e => filters_eq_error_iff).mp ⟨_, l.filters_eq⟩,
      (exists_eq_ok_iff fun e => params_eq_error_iff l.filters_eq).mp ⟨_, l.params_eq⟩,
      (exists_eq_ok_iff fun e => nodeId_eq_error_iff).mp ⟨_, l.output_eq⟩,
      (exists_eq_ok_iff fun e => wires_eq_error_iff l.filters_eq).mp ⟨_, l.wires_eq⟩,
      (exists_eq_ok_iff fun e => inputs_eq_error_iff l.filters_eq l.wires_eq).mp ⟨_, l.wiring_eq⟩⟩
  · rintro ⟨hsize, hnodes, hparams, houtput, hedges, hports⟩
    -- What a phase finds is what the next one starts from.
    obtain ⟨filters, hfilters⟩ := (exists_eq_ok_iff fun e => filters_eq_error_iff).mpr hnodes
    obtain ⟨params, hparams⟩ := (exists_eq_ok_iff fun e => params_eq_error_iff hfilters).mpr hparams
    obtain ⟨output, houtput⟩ := (exists_eq_ok_iff fun e => nodeId_eq_error_iff).mpr houtput
    obtain ⟨wires, hwires⟩ := (exists_eq_ok_iff fun e => wires_eq_error_iff hfilters).mpr hedges
    obtain ⟨wiring, hwiring⟩ :=
      (exists_eq_ok_iff fun e => inputs_eq_error_iff hfilters hwires).mpr hports
    exact ⟨⟨filters, params, output, wires, wiring, fun h => hsize _ ⟨h, rfl⟩, hfilters, hparams,
      houtput, hwires, hwiring⟩⟩

/-- **The report of a cycle names exactly the nodes that cannot run:** those that lie on a cycle and
    those that depend on one through any chain of producers, in the order in which they are declared
    and once each. What a node that is left out depends on is left out as well. -/
theorem cycleReport_of_plan (hchecks : ∀ fault ∈ g.checks, ∀ e, ¬ fault e)
    (hcycle : ∃ name, TransGen g.Feeds name name) :
    ∃ names, g.plan = .error (.cyclicGraph names)
      ∧ (GraphError.cyclicGraph names).message
        = "filter graph contains a cycle through: " ++ ", ".intercalate names
      ∧ names.Sublist g.names ∧ names.Nodup
      ∧ (∀ name, name ∈ names ↔
        ∃ knot, TransGen g.Feeds knot knot ∧ ReflTransGen g.Feeds knot name)
      ∧ ∀ name ∈ g.names, name ∉ names →
        ∀ producer, TransGen g.Feeds producer name → producer ∉ names := by
  classical
  -- The wires are laid, so every name in an edge is that of a node.
  obtain ⟨l⟩ := nonempty_wired_iff.mpr hchecks
  have hmem : ∀ name, name ∈ g.names.filter (fun name => Entangled g.Feeds name) ↔
      Entangled g.Feeds name := by
    intro name
    rw [List.mem_filter, decide_eq_true_iff]
    exact and_iff_right_of_imp l.mem_names_of_entangled
  refine ⟨g.names.filter fun name => Entangled g.Feeds name, ?_, ?_, List.filter_sublist,
    l.names_nodup.filter _, hmem, ?_⟩
  · rw [plan_eq_error_iff, Rejected, firstOf_append_iff]
    refine .inr ⟨hchecks, ?_⟩
    rw [firstOf_singleton_iff]
    exact ⟨hcycle, rfl⟩
  · rfl
  · intro name _ hname producer hpath hproducer
    rw [hmem] at hname hproducer
    exact hname (hproducer.of_path hpath.to_reflTransGen)

/-- Two nodes that feed each other, a node behind them, and one beside them. -/
def knotted : Graph where
  name := "knotted"
  nodes := [⟨"one", "expr_integer", Named.ofList [("value", .int 1)]⟩, ⟨"low", "scalar_min", ∅⟩,
    ⟨"beside", "magnitude", ∅⟩, ⟨"behind", "magnitude", ∅⟩, ⟨"high", "scalar_max", ∅⟩]
  edges := [⟨"one", "low", "arg1"⟩, ⟨"high", "low", "arg2"⟩, ⟨"low", "high", "arg1"⟩,
    ⟨"one", "high", "arg2"⟩, ⟨"high", "behind", "arg1"⟩, ⟨"one", "beside", "arg1"⟩]
  output := "one"

/-- The planner names the nodes of the cycle and the one behind it, as they were declared. -/
theorem plan_knotted : knotted.plan = .error (.cyclicGraph ["low", "behind", "high"]) := by rfl

/-- What planning finds in `knotted` up to the ordering. -/
def knottedWired : knotted.Wired where
  filters := [.integer, .scalarMin, .magnitude, .magnitude, .scalarMax]
  params := [.int 1, .nothing, .nothing, .nothing, .nothing]
  output := 0
  wires := [⟨0, 1, 0⟩, ⟨4, 1, 1⟩, ⟨1, 4, 0⟩, ⟨0, 4, 1⟩, ⟨4, 3, 0⟩, ⟨0, 2, 0⟩]
  wiring := [[], [0, 4], [0], [4], [1, 0]]
  nodes_ne_nil := by simp [knotted]
  filters_eq := by rfl
  params_eq := by rfl
  output_eq := by rfl
  wires_eq := by rfl
  wiring_eq := by rfl

/-- The node `low` is on a cycle. -/
theorem cycle_knotted : TransGen knotted.Feeds "low" "low" :=
  .tail (.single ⟨⟨"low", "high", "arg1"⟩, by simp [knotted], rfl, rfl⟩)
    ⟨⟨"high", "low", "arg2"⟩, by simp [knotted], rfl, rfl⟩

/-- The node ahead of the cycle is not reported. -/
theorem cycleReport_of_knotted :
    knotted.plan = .error (.cyclicGraph ["low", "behind", "high"])
      ∧ ∀ name, name ∈ ["low", "behind", "high"] ↔
        ∃ knot, TransGen knotted.Feeds knot knot ∧ ReflTransGen knotted.Feeds knot name := by
  obtain ⟨names, hplan, -, -, -, hmem, -⟩ :=
    cycleReport_of_plan (nonempty_wired_iff.mp ⟨knottedWired⟩) ⟨_, cycle_knotted⟩
  obtain rfl : names = ["low", "behind", "high"] := by simpa using hplan.symm.trans plan_knotted
  exact ⟨hplan, hmem⟩

end MeshExpr.Graph
