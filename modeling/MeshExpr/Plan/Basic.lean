import MeshExpr.Filter.Catalog

namespace MeshExpr

/-!
# Plans

A plan is a graph that can run: names have become positions, parameters are checked, every port
knows the node that feeds it, and an order of execution is fixed.

* `Plan` and `PlannedNode` are the types, `Plan.node?` and `Plan.nodeNamed?` look up nodes.
* `Manifest` counts what a plan is made of; `Manifest.summary` is its line in a log.
* `GraphError` is why a graph has no plan.
-/

/-- A node of a plan. -/
structure PlannedNode where
  /-- The position of the node. -/
  id : Nat
  name : String
  filter : Filter
  param : Param
  /-- The positions of the nodes that feed the ports, in the order of the ports. -/
  inputs : List Nat
deriving DecidableEq, Inhabited

/-- A graph that can run. -/
structure Plan where
  name : String
  nodes : List PlannedNode
  /-- The positions of the nodes in the order of execution. -/
  order : List Nat
  /-- The position of the node whose value is the result. -/
  output : Nat
deriving DecidableEq, Inhabited

namespace Plan

/-- The node at a position. -/
def node? (p : Plan) (id : Nat) : Option PlannedNode := p.nodes[id]?

/-- The first node of a name. -/
def nodeNamed? (p : Plan) (name : String) : Option PlannedNode := p.nodes.find? (·.name == name)

end Plan

/-- What a plan is made of. -/
structure Manifest where
  nodeCount : Nat
  edgeCount : Nat
  /-- The number of nodes that take part in an exchange between ranks. -/
  collectiveCount : Nat
  /-- The number of nodes on the longest path to the output. -/
  depth : Nat
deriving DecidableEq, Repr, Inhabited

namespace Manifest

/-- The line for a log, with the time that planning took. -/
def summary (m : Manifest) (microseconds : Nat) : String :=
  s!"nodes={m.nodeCount} edges={m.edgeCount} collectives={m.collectiveCount} depth={m.depth} plan_us={microseconds}"

end Manifest

/-- One thing that is wrong with the parameters of a node. -/
structure NodeViolation where
  node : String
  filter : Filter
  violation : Violation
deriving Inhabited

namespace NodeViolation

/-- The text of a violation at a node. -/
def message (v : NodeViolation) : String :=
  s!"node `{v.node}` ({v.filter.name}): {v.violation.message}"

end NodeViolation

/-- Why a graph has no plan. -/
inductive GraphError where
  | emptyGraph (name : String)
  | duplicateNode (name : String)
  | unknownFilter (node filter : String)
  | unknownNode (name : String)
  | unknownPort (node : String) (filter : Filter) (port : String)
  | duplicatePortWiring (node port : String)
  | unwiredPort (node : String) (filter : Filter) (port : String)
  /-- The nodes that wait for each other. -/
  | cyclicGraph (nodes : List String)
  | invalidParams (violations : List NodeViolation)
deriving Inhabited

namespace GraphError

/-- The text of an error. -/
def message : GraphError → String
  | emptyGraph name => s!"empty filter graph `{name}`"
  | duplicateNode name => s!"duplicate node name `{name}`"
  | unknownFilter node filter => s!"node `{node}` uses unknown filter type `{filter}`"
  | unknownNode name => s!"unknown node `{name}`"
  | unknownPort node filter port =>
    s!"filter `{filter.name}` (node `{node}`) has no input port `{port}`; ports: [{filter.portNames}]"
  | duplicatePortWiring node port =>
    s!"input port `{port}` of node `{node}` is wired more than once"
  | unwiredPort node filter port =>
    s!"input port `{port}` of node `{node}` ({filter.name}) is not wired"
  | cyclicGraph nodes =>
    let nodes := ", ".intercalate nodes
    s!"filter graph contains a cycle through: {nodes}"
  | invalidParams violations =>
    let lines := String.join (violations.map fun v => "\n  - " ++ v.message)
    s!"invalid graph parameters: {violations.length} parameter violation(s){lines}"

end GraphError

end MeshExpr
