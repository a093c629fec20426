import MeshExpr.Value.Basic
import MeshExpr.Json.Decode
import MeshExpr.Json.Printer
import MeshExpr.Json.Reader

namespace MeshExpr

open Json (Tree Fault)

/-!
# Values as documents

A value is written as an object with the tag of its kind, its content and its attributes; the
empty value has no content, and a value without attributes writes none.

* `Value.toJson` and `Value.text` write a value.
* `Value.ofTree` and `Value.ofText` read one. The attributes are read where they stand, the
  payload when the object has ended, since the tag may follow the content.
-/

/-! ### Writing -/

namespace Vec3

/-- A vector as the list of its components. -/
def toJson (v : Vec3) : Json := .list (v.toList.map .float)

end Vec3

namespace Number

/-- A number as a JSON number of the same domain. -/
def toJson : Number → Json
  | int n => .int n.toInt
  | float x => .float x

end Number

namespace Histogram

/-- A histogram as an object. -/
def toJson (h : Histogram) : Json :=
  .object [("counts", .list (h.counts.map fun n => .int (Int.ofNat n))),
    ("min_val", .float h.minVal),
    ("max_val", .float h.maxVal), ("num_bins", .int h.numBins.toInt)]

end Histogram

namespace Attribute

/-- An attribute as a number or a list of components. -/
def toJson : Attribute → Json
  | number n => n.toJson
  | vector v => v.toJson

end Attribute

namespace Payload

/-- The content of a payload, if it has one. -/
def content? : Payload → Option Json
  | empty => none
  | scalar n => some n.toJson
  | vector v => some v.toJson
  | boolean b => some (.bool b)
  | fieldRef name => some (.string name)
  | histogram h => some h.toJson

end Payload

namespace Value

/-- A value as an object. -/
def toJson (v : Value) : Json :=
  .object (("type", .string v.kind.tag)
    :: ((v.payload.content?.map fun content => ("value", content)).toList
      ++ if v.attrs.isEmpty then []
        else [("attrs", .object (v.attrs.entries.map fun (name, attr) => (name, attr.toJson)))]))

/-- The text of a value. -/
def text (v : Value) : String := v.toJson.render

end Value

/-! ### Reading -/

namespace Json.Tree

/-- The float of any number. -/
def float? : Tree → Option Float
  | .int n => some (Float.ofInt n)
  | .float x => some x
  | _ => none

/-- An integer of thirty-two bits. -/
def int32? : Tree → Option Int32
  | .int n => Number.ofInt? n
  | _ => none

/-- A number: an integer of thirty-two bits stays one, any other number is a float. -/
def number? (tree : Tree) : Option Number :=
  (tree.int32?.map .int).or (tree.float?.map .float)

/-- A list of three numbers. -/
def vector? : Tree → Option Vec3
  | .list [x, y, z] _ => do return ⟨← x.float?, ← y.float?, ← z.float?⟩
  | _ => none

/-- An attribute. -/
def attribute? (tree : Tree) : Option Attribute :=
  (tree.number?.map .number).or (tree.vector?.map .vector)

/-- A count of sixty-four bits without a sign. -/
def count? : Tree → Option Nat
  | .int n => if 0 ≤ n ∧ n ≤ maxWord then some n.toNat else none
  | _ => none

/-- A list of counts. -/
def counts? : Tree → Option (List Nat)
  | .list items _ => items.mapM count?
  | _ => none

/-- The field of an object that stands there exactly once. -/
def onlyField? (name : String) (fields : List (Option String × Tree)) : Option Tree :=
  match fields.filter fun field => field.1 == some name with
  | [(_, value)] => some value
  | _ => none

/-- A histogram: an object with its four fields, each exactly once, or the list of them. -/
def histogram? : Tree → Option Histogram
  | .object fields _ => do
    return ⟨← (← onlyField? "counts" fields).counts?, ← (← onlyField? "min_val" fields).float?,
      ← (← onlyField? "max_val" fields).float?, ← (← onlyField? "num_bins" fields).int32?⟩
  | .list [counts, minVal, maxVal, numBins] _ => do
    return ⟨← counts.counts?, ← minVal.float?, ← maxVal.float?, ← numBins.int32?⟩
  | _ => none

/-- The kind that a tag names. The tag is a string, or an object with that string as its only
    field and nothing in it. -/
def kind? : Tree → Option ValueKind
  | .string tag => ValueKind.ofTag? tag
  | .object [(some tag, .null)] _ | .object [(some tag, .object [] _)] _ => ValueKind.ofTag? tag
  | _ => none

/-- The payload of a kind with some content. -/
def payload? (kind : ValueKind) (content : Option Tree) : Option Payload :=
  match kind, content with
  | .empty, none => some .empty
  | .empty, some .null => some .empty
  | .scalar, some tree => tree.number?.map .scalar
  | .vector, some tree => tree.vector?.map .vector
  | .boolean, some (.bool b) => some (.boolean b)
  | .fieldRef, some (.string name) => some (.fieldRef name)
  | .histogram, some tree => tree.histogram?.map .histogram
  | _, _ => none

/-- Reads a value whose nesting is the only thing that can be wrong, and turns it into data
    later. -/
def readLater (room : Nat) (tree : Tree) : Except Fault Tree := do
  tree.check room
  return tree

/-- Reads the attributes of a value. -/
def readAttrs (room : Nat) : Tree → Except Fault (Named Attribute)
  | .object fields ending =>
    walkFields (fun attrs name tree => do
      let tree ← tree.readLater room
      return attrs.insert name (← needed tree.attribute?)) ∅ fields ending
  | tree => .error tree.fault

end Json.Tree

namespace Value

/-- What is known of a value in the middle of its object. -/
structure Draft where
  kinds : List Tree := []
  contents : List Tree := []
  attrs : Option (Named Attribute) := none

namespace Draft

/-- Reads one field of a value. -/
def step (room : Nat) (d : Draft) (name : String) (tree : Tree) : Except Fault Draft :=
  -- Tags and contents are only collected. How many there are, and whether they agree, is asked at
  -- the end.
  match name with
  | "attrs" => do return { d with attrs := ← Tree.once d.attrs (tree.readAttrs (room - 1)) }
  | "type" => do return { d with kinds := (← tree.readLater room) :: d.kinds }
  | "value" => do return { d with contents := (← tree.readLater room) :: d.contents }
  | _ => do let _ ← tree.readLater room; return d

/-- The value at the end of its object: one tag, at most one content, and the two must agree. -/
def finish? (d : Draft) : Option Value := do
  let kind ← match d.kinds with
    | [tree] => tree.kind?
    | _ => none
  let content ← match d.contents with
    | [] => some none
    | [tree] => some (some tree)
    | _ => none
  return ⟨← Tree.payload? kind content, d.attrs.getD ∅⟩

end Draft

/-- Reads a value in which at most `room` lists and objects are nested. -/
def ofTree (room : Nat) : Tree → Except Fault Value
  | .object fields ending => do
    Tree.needed (← Tree.walkFields (Draft.step (room - 1)) {} fields ending).finish?
  | tree => .error tree.fault

/-- Reads a document that holds a value. -/
def ofText (text : String) : Except Fault Value :=
  (Json.Document.ofText text).read (ofTree Json.maxNesting)

end Value

end MeshExpr
