import MeshExpr.Graph.Basic
import MeshExpr.Plan.Basic
import MeshExpr.Plan.Schedule

namespace MeshExpr.Graph

/-!
# Planning

A graph is checked in five phases, and the first phase that finds a fault reports it: the names
and filters of the nodes, the parameters of all nodes together, the output, the wires, and at last
whether the nodes can be ordered.

* `filters`, `params`, `nodeId`, `wires`, `inputs` and `orderOf` are the phases.
* `plan` runs them one after the other.
-/

/-- The filters of the nodes. The first node that repeats a name or has no filter is reported. -/
def filtersFrom (seen : List String) : List Node → Except GraphError (List Filter)
  | [] => .ok []
  | node :: rest =>
    if seen.contains node.name then .error (.duplicateNode node.name)
    else match Filter.ofName? node.filter with
      | none => .error (.unknownFilter node.name node.filter)
      | some filter => do return filter :: (← filtersFrom (node.name :: seen) rest)

/-- The filters of the nodes. -/
def filters (g : Graph) : Except GraphError (List Filter) := filtersFrom [] g.nodes

/-- What is wrong with the parameters of one node. -/
def nodeViolations (node : Node) (filter : Filter) : List NodeViolation :=
  (filter.paramSpec.violations node.params).map (⟨node.name, filter, ·⟩)

/-- The parameters of the nodes. All that is wrong with any of them is reported at once. -/
def params (g : Graph) (filters : List Filter) : Except GraphError (List Param) :=
  let nodes := g.nodes.zip filters
  match nodes.flatMap fun (node, filter) => nodeViolations node filter with
  | [] => .ok (nodes.filterMap fun (node, filter) => (filter.paramSpec.check node.params).toOption)
  | violations => .error (.invalidParams violations)

/-- The position of a node. -/
def nodeId (g : Graph) (name : String) : Except GraphError Nat :=
  match g.nodes.findIdx? (·.name == name) with
  | some id => .ok id
  | none => .error (.unknownNode name)

/-- A wire between positions. -/
structure Wire where
  source : Nat
  target : Nat
  /-- The place of the port. -/
  slot : Nat
deriving DecidableEq, Repr

/-- Lays a wire beside the ones before it: both its nodes must exist, then the port, and the port
    must be free. -/
def layWire (g : Graph) (filters : List Filter) (laid : List Wire) (e : Edge) :
    Except GraphError (List Wire) := do
  let source ← g.nodeId e.source
  let target ← g.nodeId e.target
  -- There is a filter for every node that exists, so the other one is never taken.
  let filter := filters[target]?.getD .nullArg
  match filter.portIndex? e.port with
  | none => throw (.unknownPort e.target filter e.port)
  | some slot =>
    if laid.any fun w => w.target == target && w.slot == slot then
      throw (.duplicatePortWiring e.target e.port)
    else return laid ++ [⟨source, target, slot⟩]

/-- Lays all wires in the order of the edges. -/
def wires (g : Graph) (filters : List Filter) : Except GraphError (List Wire) :=
  g.edges.foldlM (g.layWire filters) []

/-- The node that feeds a port. -/
def feeder (wires : List Wire) (node : Node) (filter : Filter) (target slot : Nat) (port : Port) :
    Except GraphError Nat :=
  match wires.find? fun w => w.target == target && w.slot == slot with
  | some w => .ok w.source
  | none => .error (.unwiredPort node.name filter port.name)

/-- The nodes that feed the ports of each node. The first port without a wire is reported. -/
def inputs (g : Graph) (filters : List Filter) (wires : List Wire) : Except GraphError Wiring :=
  (g.nodes.zip filters).zipIdx.mapM fun ((node, filter), target) =>
    filter.ports.zipIdx.mapM fun (port, slot) => feeder wires node filter target slot port

/-- The order of execution; the nodes that wait for each other are reported in order. -/
def orderOf (g : Graph) (wiring : Wiring) : Except GraphError (List Nat) :=
  match schedule wiring with
  | .ok order => .ok order
  | .error stuck => .error (.cyclicGraph (stuck.filterMap fun id => g.nodes[id]?.map (·.name)))

/-- The nodes of the plan. -/
def plannedNodes (g : Graph) (filters : List Filter) (params : List Param) (wiring : Wiring) :
    List PlannedNode :=
  (g.nodes.zip (filters.zip (params.zip wiring))).zipIdx.map
    fun ((node, filter, param, inputs), id) => ⟨id, node.name, filter, param, inputs⟩

/-- Plans a graph. -/
def plan (g : Graph) : Except GraphError (Plan × Manifest) := do
  -- Each phase sees the whole graph before the next one begins, so that a fault of an earlier phase
  -- is reported first, wherever in the graph it is.
  if g.nodes.isEmpty then throw (.emptyGraph g.name)
  let filters ← g.filters
  let params ← g.params filters
  let output ← g.nodeId g.output
  let wires ← g.wires filters
  let wiring ← g.inputs filters wires
  let order ← g.orderOf wiring
  let plan : Plan := ⟨g.name, g.plannedNodes filters params wiring, order, output⟩
  let manifest : Manifest :=
    { nodeCount := g.nodes.length
      edgeCount := g.edges.length
      collectiveCount := filters.countP (·.isCollective)
      depth := (depths wiring order)[output]?.getD 0 }
  return (plan, manifest)

end MeshExpr.Graph
