import MeshExpr.Filter.Param

namespace MeshExpr

/-!
# Filter graphs

A graph names its nodes, gives each of them a filter with parameters, and wires outputs to input
ports. Nothing is checked here: whether a graph can run is found out when it is planned.

* `Graph` is the type; `Graph.addNode` and `Graph.addEdge` build graphs step by step.
* `Graph.same` compares two graphs, the numbers in their parameters by value.
-/

/-- A node of a graph. -/
structure Node where
  name : String
  /-- The name of a filter. -/
  filter : String
  params : RawParams := ∅
deriving Inhabited

/-- A wire from the output of one node to an input port of another one. -/
structure Edge where
  source : String
  target : String
  port : String
deriving DecidableEq, Repr, Inhabited

/-- A filter graph. -/
structure Graph where
  /-- The name under which results are recorded. -/
  name : String
  nodes : List Node := []
  edges : List Edge := []
  /-- The node whose value is the result. -/
  output : String
deriving Inhabited

namespace Graph

/-- Adds a node behind the others. -/
def addNode (g : Graph) (name filter : String) (params : RawParams) : Graph :=
  { g with nodes := g.nodes ++ [⟨name, filter, params⟩] }

/-- Adds a wire behind the others. -/
def addEdge (g : Graph) (source target port : String) : Graph :=
  { g with edges := g.edges ++ [⟨source, target, port⟩] }

end Graph

/-- Whether two nodes are equal, numbers in their parameters compared by value. -/
def Node.same (a b : Node) : Bool :=
  a.name == b.name && a.filter == b.filter && a.params.all₂ Json.same b.params

/-- Whether two graphs are equal, numbers in their parameters compared by value. -/
def Graph.same (a b : Graph) : Bool :=
  a.name == b.name && a.output == b.output && a.edges == b.edges
    && a.nodes.length == b.nodes.length && (a.nodes.zip b.nodes).all fun (m, n) => m.same n

end MeshExpr
