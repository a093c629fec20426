import MeshExpr.Graph.Basic
import MeshExpr.Json.Decode
import MeshExpr.Json.Reader

namespace MeshExpr

open Json (Tree Fault)

/-!
# Graphs as documents

A graph, a node and an edge are records. A document may leave out the edges of a graph and the
parameters of a node; a text that is written never does.

* `Graph.toJson` and `Graph.text` write a graph.
* `Graph.ofTree`, `Graph.ofText` and `Graph.ofJson` read one.
-/

/-! ### Writing -/

/-- A node as an object. -/
def Node.toJson (n : Node) : Json :=
  .object [("name", .string n.name), ("filter", .string n.filter), ("params", .table n.params)]

/-- An edge as an object. -/
def Edge.toJson (e : Edge) : Json :=
  .object [("from", .string e.source), ("to", .string e.target), ("port", .string e.port)]

/-- A graph as an object. -/
def Graph.toJson (g : Graph) : Json :=
  .object [("name", .string g.name), ("nodes", .list (g.nodes.map Node.toJson)),
    ("edges", .list (g.edges.map Edge.toJson)), ("output", .string g.output)]

/-- The text of a graph. -/
def Graph.text (g : Graph) : String := g.toJson.render

/-! ### Reading nodes -/

/-- Reads the parameters of a node; of two of one key the later one stays. -/
def readParams (room : Nat) : Tree → Except Fault RawParams
  | .object fields ending =>
    Tree.walkFields (fun params name tree => do
      return params.insert name (← tree.json (room - 1))) ∅ fields ending
  | tree => .error tree.fault

namespace Node

/-- What is known of a node in the middle of its object. -/
structure Draft where
  name : Option String := none
  filter : Option String := none
  params : Option RawParams := none

/-- Reads one field of a node. -/
def Draft.step (room : Nat) (d : Draft) (field : String) (tree : Tree) : Except Fault Draft :=
  match field with
  | "name" => do return { d with name := ← Tree.once d.name tree.readString }
  | "filter" => do return { d with filter := ← Tree.once d.filter tree.readString }
  | "params" => do return { d with params := ← Tree.once d.params (readParams room tree) }
  | _ => do tree.skip; return d

/-- Reads a node in which at most `room` lists and objects are nested. -/
def ofTree (room : Nat) : Tree → Except Fault Node
  | .object fields ending => do
    let d ← Tree.walkFields (Draft.step (room - 1)) {} fields ending
    return ⟨← Tree.needed d.name, ← Tree.needed d.filter, d.params.getD ∅⟩
  | .list items ending => do
    let (name, items) ← Tree.nextItem Tree.readString items ending
    let name ← Tree.needed name
    let (filter, items) ← Tree.nextItem Tree.readString items ending
    let filter ← Tree.needed filter
    let (params, items) ← Tree.nextItem (readParams (room - 1)) items ending
    Tree.noItem items ending
    return ⟨name, filter, params.getD ∅⟩
  | tree => .error tree.fault

end Node

/-! ### Reading edges -/

namespace Edge

/-- What is known of an edge in the middle of its object. -/
structure Draft where
  source : Option String := none
  target : Option String := none
  port : Option String := none

/-- Reads one field of an edge. -/
def Draft.step (d : Draft) (field : String) (tree : Tree) : Except Fault Draft :=
  match field with
  | "from" => do return { d with source := ← Tree.once d.source tree.readString }
  | "to" => do return { d with target := ← Tree.once d.target tree.readString }
  | "port" => do return { d with port := ← Tree.once d.port tree.readString }
  | _ => do tree.skip; return d

/-- Reads an edge. -/
def ofTree : Tree → Except Fault Edge
  | .object fields ending => do
    let d ← Tree.walkFields Draft.step {} fields ending
    return ⟨← Tree.needed d.source, ← Tree.needed d.target, ← Tree.needed d.port⟩
  | .list items ending => do
    let (source, items) ← Tree.nextItem Tree.readString items ending
    let source ← Tree.needed source
    let (target, items) ← Tree.nextItem Tree.readString items ending
    let target ← Tree.needed target
    let (port, items) ← Tree.nextItem Tree.readString items ending
    let port ← Tree.needed port
    Tree.noItem items ending
    return ⟨source, target, port⟩
  | tree => .error tree.fault

end Edge

/-! ### Reading graphs -/

namespace Graph

/-- What is known of a graph in the middle of its object. -/
structure Draft where
  name : Option String := none
  nodes : Option (List Node) := none
  edges : Option (List Edge) := none
  output : Option String := none

/-- Reads one field of a graph. -/
def Draft.step (room : Nat) (d : Draft) (field : String) (tree : Tree) : Except Fault Draft :=
  match field with
  | "name" => do return { d with name := ← Tree.once d.name tree.readString }
  | "nodes" => do
    return { d with nodes := ← Tree.once d.nodes (tree.readItems (Node.ofTree (room - 1))) }
  | "edges" => do return { d with edges := ← Tree.once d.edges (tree.readItems Edge.ofTree) }
  | "output" => do return { d with output := ← Tree.once d.output tree.readString }
  | _ => do tree.skip; return d

/-- Reads a graph in which at most `room` lists and objects are nested. -/
def ofTree (room : Nat) : Tree → Except Fault Graph
  | .object fields ending => do
    let d ← Tree.walkFields (Draft.step (room - 1)) {} fields ending
    return ⟨← Tree.needed d.name, ← Tree.needed d.nodes, d.edges.getD [], ← Tree.needed d.output⟩
  | .list items ending => do
    let (name, items) ← Tree.nextItem Tree.readString items ending
    let name ← Tree.needed name
    let (nodes, items) ← Tree.nextItem (Tree.readItems (Node.ofTree (room - 2))) items ending
    let nodes ← Tree.needed nodes
    let (edges, items) ← Tree.nextItem (Tree.readItems Edge.ofTree) items ending
    let (output, items) ← Tree.nextItem Tree.readString items ending
    let output ← Tree.needed output
    Tree.noItem items ending
    return ⟨name, nodes, edges.getD [], output⟩
  | tree => .error tree.fault

/-- Reads a document that holds a graph. -/
def ofText (text : String) : Except Fault Graph :=
  (Json.Document.ofText text).read (ofTree Json.maxNesting)

/-- Reads a graph from a JSON value, of which only the shape can be wrong. -/
def ofJson (j : Json) : Except Fault Graph :=
  (ofTree Json.maxNesting (Tree.ofJson j)).mapError fun _ => .unfit

end Graph

end MeshExpr
