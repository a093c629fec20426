import MeshExpr.Engine.Config
import MeshExpr.Eval.Plan
import MeshExpr.Plan.Planner

namespace MeshExpr

/-!
# The engine

The engine holds the expressions that were loaded and runs all of them once in each cycle. An
expression of a cycle reads the history as it was before the cycle; only when all of them have a
value are the values recorded.

* `Engine` is the state. Every operation gives its outcome and the state after it.
* `Engine.load`, `Engine.loadGraph` and `Engine.record` prepare a run, `Engine.executeCycle` runs a
  cycle.
* `Engine.fail` stops the engine for good when that is what failures do; after that every
  operation is refused with the reason of the failure.
-/

/-- Why an operation of the engine is refused or fails. -/
inductive EngineError where
  | notLoaded
  | duplicateExpression (name : String)
  /-- An earlier failure has stopped the engine. -/
  | poisoned (reason : String)
  | eval (failure : Failure)
  | graph (error : GraphError)
deriving Inhabited

namespace EngineError

/-- The text of an error. -/
def message : EngineError → String
  | notLoaded => "engine has no loaded expressions"
  | duplicateExpression name => s!"expression `{name}` is already loaded"
  | poisoned reason => s!"engine halted after a fatal evaluation failure: {reason}"
  | eval failure => failure.message
  | graph error => error.message

end EngineError

/-- The results of a cycle. -/
structure CycleReport where
  /-- The number of the cycle, which is the number of the cycles that were completed before. -/
  cycle : Nat
  /-- The result of each expression in the order in which they were loaded. -/
  results : List (String × Value)
deriving DecidableEq, Inhabited

namespace CycleReport

/-- The result of an expression. -/
def get? (r : CycleReport) (name : String) : Option Value :=
  (r.results.find? (·.1 == name)).map (·.2)

end CycleReport

/-- The state of the engine. -/
structure Engine where
  config : Config := {}
  /-- The expressions in the order in which they were loaded. -/
  plans : List Plan := []
  history : History := .empty
  /-- Why the engine has stopped for good, if it has. -/
  poisoned : Option String := none
  /-- The number of the cycles that were completed. There are no more of them than calls of the
      engine, so that no run of fewer than `2 ^ 64` calls leaves a machine word. -/
  cyclesRun : Nat := 0
deriving DecidableEq, Inhabited

/-- The outcome of an operation and the state after it. -/
abbrev Outcome (α : Type) := Except EngineError α × Engine

namespace Engine

/-- An engine with nothing loaded. -/
def new (config : Config) : Engine := { config }

/-- The names of the expressions in the order in which they were loaded. -/
def expressionNames (e : Engine) : List String := e.plans.map (·.name)

/-- Refuses an operation on an engine that has stopped. -/
def ensureUsable (e : Engine) : Except EngineError Unit :=
  match e.poisoned with
  | some reason => .error (.poisoned reason)
  | none => .ok ()

/-- Loads an expression, unless one of its name is loaded. -/
def load (e : Engine) (plan : Plan) : Outcome Unit :=
  match e.ensureUsable with
  | .error error => (.error error, e)
  | .ok () =>
    if e.expressionNames.contains plan.name then (.error (.duplicateExpression plan.name), e)
    else (.ok (), { e with plans := e.plans ++ [plan] })

/-- Plans a graph and loads the plan. -/
def loadGraph (e : Engine) (g : Graph) : Outcome Manifest :=
  -- The graph is planned first: what is wrong with it is reported by a stopped engine, too.
  match g.plan with
  | .error error => (.error (.graph error), e)
  | .ok (plan, manifest) => match e.load plan with
    | (.error error, e) => (.error error, e)
    | (.ok (), e) => (.ok manifest, e)

/-- Records a value that does not come from an expression. -/
def record (e : Engine) (name : String) (value : Value) : Outcome Unit :=
  match e.ensureUsable with
  | .error error => (.error error, e)
  | .ok () => (.ok (), { e with history := e.history.append name value })

/-- What the expressions of a cycle see. -/
def context (e : Engine) (mesh : Option Mesh) : Context := ⟨mesh, e.history, e.config.cycleVar⟩

/-- The state after a failure. -/
def fail (e : Engine) (failure : Failure) : Engine :=
  match e.config.failurePolicy with
  | .fatal => { e with poisoned := some failure.message }
  | .forward => e

/-- The state after a cycle with these results. -/
def finish (e : Engine) (results : List (String × Value)) : Engine :=
  { e with
    history :=
      if e.config.recordHistory then
        results.foldl (fun history (name, value) => history.append name value) e.history
      else e.history
    cyclesRun := e.cyclesRun + 1 }

/-- The values of all expressions, each with its name. -/
def evaluateAll (plans : List Plan) (ctx : Context) :
    ExceptT Failure Collective (List (String × Value)) :=
  plans.mapM fun plan => do return (plan.name, ← plan.evaluate ctx)

/-- Runs a cycle. -/
def executeCycle (e : Engine) (mesh : Option Mesh) : Collective (Outcome CycleReport) :=
  match e.ensureUsable with
  | .error error => .done (.error error, e)
  | .ok () =>
    if e.plans.isEmpty then .done (.error .notLoaded, e)
    else do
      match ← (evaluateAll e.plans (e.context mesh)).run with
      | .ok results => return (.ok ⟨e.cyclesRun, results⟩, e.finish results)
      | .error failure => return (.error (.eval failure), e.fail failure)

end Engine

end MeshExpr
