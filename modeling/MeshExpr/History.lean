import MeshExpr.Value.Document

namespace MeshExpr

open Json (Tree Fault)

/-!
# The history of results

A log of values for each name, the oldest value first. The engine appends to it after a cycle, and
an identifier in a graph reads the last value of its name.

* `History.append` adds a value; `entries_append` says what every log holds after that.
* `History.latest?` is the last value of a log, `History.count` the number of its values.
* `History.text` writes a history as a document, `History.ofText` reads one.
-/

/-- The values recorded under each name, in the order in which they were recorded. -/
structure History where
  logs : Named (List Value) := ∅
deriving DecidableEq, Inhabited

namespace History

/-- The history in which nothing was recorded. -/
def empty : History := ⟨∅⟩

/-- The log of a name, if it has one. -/
def log? (h : History) (name : String) : Option (List Value) := h.logs.get? name

/-- The log of a name; a name without one has recorded nothing. -/
def entries (h : History) (name : String) : List Value := (h.log? name).getD []

/-- Records a value at the end of the log of a name. -/
def append (h : History) (name : String) (value : Value) : History :=
  ⟨h.logs.insert name (h.entries name ++ [value])⟩

/-- The value recorded last under a name. -/
def latest? (h : History) (name : String) : Option Value := (h.entries name).getLast?

/-- The number of values recorded under a name. -/
def count (h : History) (name : String) : Nat := ((h.log? name).map List.length).getD 0

/-- The number of names that have a log. -/
def size (h : History) : Nat := h.logs.size

/-- Whether no name has a log. -/
def isEmpty (h : History) : Bool := h.logs.isEmpty

/-- Whether two histories have equal logs for the same names, floats compared by value. -/
def same (a b : History) : Bool :=
  a.logs.all₂ (fun u v => u.length == v.length && (u.zip v).all fun (x, y) => x.same y) b.logs

/-- A value that is appended stands at the end of its own log, and in no other one. -/
theorem entries_append (h : History) (name other : String) (value : Value) :
    (h.append name value).entries other =
      if name = other then h.entries other ++ [value] else h.entries other := by
  by_cases heq : name = other
  · subst heq
    simp [append, entries, log?]
  · simp [append, entries, log?, Named.get?_insert, heq]

/-- What was appended last is what is found. -/
theorem latest?_append_self (h : History) (name : String) (value : Value) :
    (h.append name value).latest? name = some value := by
  simp [latest?, entries_append]

/-! ### Documents -/

/-- A history as an object. -/
def toJson (h : History) : Json :=
  .object [("entries", .object (h.logs.entries.map fun (name, log) =>
    (name, .list (log.map Value.toJson))))]

/-- The text of a history. -/
def text (h : History) : String := h.toJson.render

/-- Reads the logs of a history in which at most `room` lists and objects are nested. -/
def readLogs (room : Nat) : Tree → Except Fault (Named (List Value))
  | .object fields ending =>
    Tree.walkFields (fun logs name tree => do
      return logs.insert name (← tree.readItems (Value.ofTree (room - 2)))) ∅ fields ending
  | tree => .error tree.fault

/-- Reads a history in which at most `room` lists and objects are nested. -/
def ofTree (room : Nat) : Tree → Except Fault History
  | .object fields ending => do
    let logs ← Tree.walkFields (fun logs name tree =>
      match name with
      | "entries" => Tree.once logs (readLogs (room - 1) tree)
      | _ => do tree.skip; return logs) none fields ending
    return ⟨← Tree.needed logs⟩
  | .list items ending => do
    let (logs, items) ← Tree.nextItem (readLogs (room - 1)) items ending
    let logs ← Tree.needed logs
    Tree.noItem items ending
    return ⟨logs⟩
  | tree => .error tree.fault

/-- Reads a document that holds a history. -/
def ofText (text : String) : Except Fault History :=
  (Json.Document.ofText text).read (ofTree Json.maxNesting)

end History

end MeshExpr
