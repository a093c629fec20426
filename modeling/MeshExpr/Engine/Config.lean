import MeshExpr.Json.Decode
import MeshExpr.Json.Printer
import MeshExpr.Json.Reader
import MeshExpr.Text.Blank

namespace MeshExpr

open Json (Tree Fault)

/-!
# Settings of the engine

* `Config` are the settings; a document may leave out any of them.
* `Config.text` writes them, `Config.ofText` reads them and refuses a blank name for the variable
  that counts the cycles.
-/

/-- What the engine does when an evaluation fails. -/
inductive FailurePolicy where
  /-- It stops for good. -/
  | fatal
  /-- It hands the failure on and can be used as before. -/
  | forward
deriving DecidableEq, Repr

namespace FailurePolicy

/-- The name of a policy in documents. -/
def name : FailurePolicy → String
  | fatal => "fatal"
  | forward => "forward"

/-- The policy of a name. -/
def ofName (name : String) : Except Fault FailurePolicy :=
  match name with
  | "fatal" => .ok fatal
  | "forward" => .ok forward
  | _ => .error .unfit

/-- Reads a policy: its name, or an object with the name as its only field and `null` in it.
    Anything that begins in another way is taken for no value at all. -/
def ofTree : Tree → Except Fault FailurePolicy
  | .string s => ofName s
  | .object [] ending => do ending.require; throw .malformed
  | .object ((name, tree) :: rest) ending => do
    let policy ← ofName (← Tree.fieldName name)
    match tree with
    | .null => pure ()
    | tree => throw tree.fault
    if rest.isEmpty then ending.requireLast else throw .malformed
    return policy
  | .absent => .error .truncated
  | .brokenString report => .error report.wanted
  | _ => .error .malformed

end FailurePolicy

/-- The settings of the engine. -/
structure Config where
  failurePolicy : FailurePolicy := .fatal
  /-- Whether the results of a cycle are recorded. -/
  recordHistory : Bool := true
  /-- The state variable that counts the cycles. -/
  cycleVar : String := "cycle"
deriving DecidableEq, Repr, Inhabited

/-- Why settings cannot be used. -/
inductive ConfigError where
  /-- The document cannot be read. -/
  | document (fault : Fault)
  /-- The name of the variable that counts the cycles is blank. -/
  | blankCycleVar
deriving DecidableEq, Repr

namespace ConfigError

/-- The text of settings that were read and are refused. -/
def blankMessage : String := "invalid engine config: cycle_state_var must not be empty"

end ConfigError

namespace Config

/-- Settings as an object. -/
def toJson (c : Config) : Json :=
  .object [("failure_policy", .string c.failurePolicy.name),
    ("record_history", .bool c.recordHistory), ("cycle_state_var", .string c.cycleVar)]

/-- The text of settings. -/
def text (c : Config) : String := c.toJson.render

/-- What is known of settings in the middle of their object. -/
structure Draft where
  failurePolicy : Option FailurePolicy := none
  recordHistory : Option Bool := none
  cycleVar : Option String := none

namespace Draft

/-- Reads one setting. -/
def step (d : Draft) (field : String) (tree : Tree) : Except Fault Draft :=
  match field with
  | "failure_policy" => do
    return { d with failurePolicy := ← Tree.once d.failurePolicy (FailurePolicy.ofTree tree) }
  | "record_history" => do
    return { d with recordHistory := ← Tree.once d.recordHistory tree.readBool }
  | "cycle_state_var" => do
    return { d with cycleVar := ← Tree.once d.cycleVar tree.readString }
  | _ => do tree.skip; return d

/-- The settings, with the usual ones in the place of those that were left out. -/
def finish (d : Draft) : Config :=
  let usual : Config := {}
  ⟨d.failurePolicy.getD usual.failurePolicy, d.recordHistory.getD usual.recordHistory,
    d.cycleVar.getD usual.cycleVar⟩

end Draft

/-- Reads settings. -/
def ofTree : Tree → Except Fault Config
  | .object fields ending => do return (← Tree.walkFields Draft.step {} fields ending).finish
  | .list items ending => do
    let (failurePolicy, items) ← Tree.nextItem FailurePolicy.ofTree items ending
    let (recordHistory, items) ← Tree.nextItem Tree.readBool items ending
    let (cycleVar, items) ← Tree.nextItem Tree.readString items ending
    Tree.noItem items ending
    return (Draft.mk failurePolicy recordHistory cycleVar).finish
  | tree => .error tree.fault

/-- Reads a document that holds settings. -/
def ofText (text : String) : Except ConfigError Config :=
  match (Json.Document.ofText text).read ofTree with
  | .error fault => .error (.document fault)
  | .ok config => if Text.isBlank config.cycleVar then .error .blankCycleVar else .ok config

end Config

end MeshExpr
