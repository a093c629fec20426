import MeshExpr.Json.Tree

namespace MeshExpr.Json.Tree

/-!
# Reading trees as data

Readers for the shapes that documents are made of. A record is an object whose fields may stand in
any order, or a list of its fields in their declared order; fields that the record does not have
are skipped, and a field that stands twice is wrong.

* `readString`, `readBool` and `readItems` read the plain shapes.
* `walkFields` passes through the fields of an object in the order of the text.
* `once` reads a field that must not have been read before, `needed` wants one that has been read.
* `nextItem` takes the fields of a record that is written as a list.
-/

variable {α σ : Type}

/-- Reads a string. -/
def readString : Tree → Except Fault String
  | .string s => .ok s
  | tree => .error tree.fault

/-- Reads a truth value. -/
def readBool : Tree → Except Fault Bool
  | .bool b => .ok b
  | tree => .error tree.fault

/-- Reads all items of a list. -/
def readItems (read : Tree → Except Fault α) : Tree → Except Fault (List α)
  | .list items ending => do
    let items ← items.mapM read
    ending.require
    return items
  | tree => .error tree.fault

/-- Passes through the fields of an object, from the first to the last. -/
def walkFields (step : σ → String → Tree → Except Fault σ) (start : σ) :
    List (Option String × Tree) → Ending → Except Fault σ
  | [], ending => do ending.require; return start
  | (name, value) :: rest, ending => do
    let name ← fieldName name
    walkFields step (← step start name value) rest ending

/-- Reads a field, unless it stood in the object before. -/
def once (slot : Option α) (read : Except Fault α) : Except Fault (Option α) :=
  match slot with
  | some _ => .error .unfit
  | none => some <$> read

/-- The content of a field that must stand in the object. -/
def needed : Option α → Except Fault α
  | some value => .ok value
  | none => .error .unfit

/-- Takes the next item of a list, if there is one, and reads it. -/
def nextItem (read : Tree → Except Fault α) (items : List Tree) (ending : Ending) :
    Except Fault (Option α × List Tree) :=
  match items with
  | [] => do ending.require; return (none, [])
  | item :: rest => do return (some (← read item), rest)

/-- Wants no further item. -/
def noItem (items : List Tree) (ending : Ending) : Except Fault Unit :=
  match items with
  | [] => ending.requireLast
  | _ :: _ => .error .malformed

end MeshExpr.Json.Tree
