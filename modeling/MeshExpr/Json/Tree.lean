import MeshExpr.Json.Basic

namespace MeshExpr.Json

/-!
# Texts as trees

A text is laid out as a tree before anyone asks what it should hold. The tree goes as far as the
text makes sense: where it does not, the tree has a leaf or an ending that says so. A reader then
walks through the tree in the order of the text and reports the first thing that it cannot use,
be it a value of another shape or the spot where the text breaks off.

* `Tree` is the type of these trees.
* `Tree.skip` passes over a value that nobody asked for; it is less strict than a reader.
* `Tree.json` reads a value of any shape.
* `Tree.ofJson` lays out a value; `Tree.json` reads it back.
-/

/-- Why a text is not the document that was asked for. -/
inductive Fault where
  /-- It is not JSON. -/
  | malformed
  /-- It ends too early. -/
  | truncated
  /-- It is JSON of another shape. -/
  | unfit
deriving DecidableEq, Repr, Inhabited

/-- What is reported where a text breaks off, by a reader that wants the value and by one that
    skips it. -/
structure Report where
  wanted : Fault
  skipped : Fault
deriving DecidableEq, Repr

namespace Report

/-- No JSON, whoever reads. -/
def malformed : Report := ⟨.malformed, .malformed⟩

/-- The end of the text, whoever reads. -/
def truncated : Report := ⟨.truncated, .truncated⟩

end Report

/-- What comes after the last item of a list or the last field of an object. -/
inductive Ending where
  /-- The closing bracket. -/
  | closed
  /-- Something else than a comma and the closing bracket, or a comma and then no item. -/
  | stray
  /-- The end of the text. -/
  | cut
  /-- A comma and the end of the text. -/
  | cutAfterComma
  /-- A field name that breaks off. -/
  | brokenName (report : Report)
deriving DecidableEq, Repr

/-- A text as far as it makes sense. -/
inductive Tree where
  | null
  | bool (b : Bool)
  | int (n : Int)
  | float (x : Float)
  | string (s : String)
  /-- A token that can be skipped but stands for no value: a number beyond all floats, or a string
      with half of a surrogate pair. -/
  | unusable
  | list (items : List Tree) (ending : Ending)
  /-- The fields in the order of the text; a name with half of a surrogate pair is `none`. -/
  | object (fields : List (Option String × Tree)) (ending : Ending)
  /-- The text ends before the value. -/
  | absent
  /-- A string that breaks off. -/
  | brokenString (report : Report)
  /-- Anything else that breaks off. -/
  | broken (report : Report)
deriving Inhabited

/-! ### Endings -/

namespace Ending

/-- Wants the closing bracket where another item could stand. -/
def require : Ending → Except Fault Unit
  | .closed => .ok ()
  | .stray => .error .malformed
  | .cut | .cutAfterComma => .error .truncated
  | .brokenName report => .error report.wanted

/-- Wants the closing bracket where no other item can stand, so that a comma is wrong already. -/
def requireLast : Ending → Except Fault Unit
  | .closed => .ok ()
  | .cut => .error .truncated
  | .stray | .cutAfterComma | .brokenName _ => .error .malformed

/-- Wants the closing bracket of something that is skipped. -/
def skip : Ending → Except Fault Unit
  | .brokenName report => .error report.skipped
  | ending => ending.require

end Ending

/-! ### Any value -/

namespace Tree

/-- What is reported by a reader that has no use for a value of this shape. -/
def fault : Tree → Fault
  | .unusable => .malformed
  | .absent => .truncated
  | .brokenString report | .broken report => report.wanted
  | _ => .unfit

/-- The name of a field. -/
def fieldName : Option String → Except Fault String
  | some name => .ok name
  | none => .error .malformed

mutual
/-- Passes over a value. -/
def skip : Tree → Except Fault Unit
  | .list items ending => do skipItems items; ending.skip
  | .object fields ending => do skipFields fields; ending.skip
  | .absent => .error .truncated
  | .brokenString report | .broken report => .error report.skipped
  | _ => .ok ()

/-- Passes over the items of a list. -/
def skipItems : List Tree → Except Fault Unit
  | [] => .ok ()
  | item :: rest => do skip item; skipItems rest

/-- Passes over the fields of an object. -/
def skipFields : List (Option String × Tree) → Except Fault Unit
  | [] => .ok ()
  | (_, value) :: rest => do skip value; skipFields rest
end

mutual
/-- Reads a value of any shape in which at most `room` lists and objects are nested. The fields
    of an object come out in the order of their names; of two fields of one name the later one
    stays. -/
def json (room : Nat) : Tree → Except Fault Json
  | .null => .ok .null
  | .bool b => .ok (.bool b)
  | .int n => .ok (.int n)
  | .float x => .ok (.float x)
  | .string s => .ok (.string s)
  | .list items ending => match room with
    | 0 => .error .malformed
    | room + 1 => do
      -- What is wrong with an item comes before what is wrong behind the last one.
      let items ← jsonItems room items
      ending.require
      return .list items
  | .object fields ending => match room with
    | 0 => .error .malformed
    | room + 1 => do
      let fields ← jsonFields room fields
      ending.require
      return .table (.ofList fields)
  | tree => .error tree.fault

/-- Reads the items of a list. -/
def jsonItems (room : Nat) : List Tree → Except Fault (List Json)
  | [] => .ok []
  | item :: rest => do return (← json room item) :: (← jsonItems room rest)

/-- Reads the fields of an object in the order of the text. -/
def jsonFields (room : Nat) : List (Option String × Tree) → Except Fault (List (String × Json))
  | [] => .ok []
  | (name, value) :: rest => do
    let name ← fieldName name
    let value ← json room value
    return (name, value) :: (← jsonFields room rest)
end

mutual
/-- Reads a value of any shape for its nesting only, and keeps the fields as they stand. -/
def check (room : Nat) : Tree → Except Fault Unit
  | .null | .bool _ | .int _ | .float _ | .string _ => .ok ()
  | .list items ending => match room with
    | 0 => .error .malformed
    | room + 1 => do checkItems room items; ending.require
  | .object fields ending => match room with
    | 0 => .error .malformed
    | room + 1 => do checkFields room fields; ending.require
  | tree => .error tree.fault

/-- Checks the items of a list. -/
def checkItems (room : Nat) : List Tree → Except Fault Unit
  | [] => .ok ()
  | item :: rest => do check room item; checkItems room rest

/-- Checks the fields of an object. -/
def checkFields (room : Nat) : List (Option String × Tree) → Except Fault Unit
  | [] => .ok ()
  | (name, value) :: rest => do
    let _ ← fieldName name
    check room value
    checkFields room rest
end

mutual
/-- The tree of a value. -/
def ofJson : Json → Tree
  | .null => .null
  | .bool b => .bool b
  | .int n => .int n
  | .float x => .float x
  | .string s => .string s
  | .list items => .list (ofItems items) .closed
  | .object fields => .object (ofFields fields) .closed

/-- The trees of the items of a list. -/
def ofItems : List Json → List Tree
  | [] => []
  | item :: rest => ofJson item :: ofItems rest

/-- The trees of the fields of an object. -/
def ofFields : List (String × Json) → List (Option String × Tree)
  | [] => []
  | (name, value) :: rest => (some name, ofJson value) :: ofFields rest
end

end Tree

/-- How many lists and objects a document may nest. -/
def maxNesting : Nat := 127

end MeshExpr.Json
