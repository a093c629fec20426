namespace MeshExpr

/-!
# Scheduling

A wiring lists for each node the nodes that feed it, once for each port. The scheduler runs nodes
one after the other: a node is ready when all nodes that feed it have run, and of the ready nodes
the one with the lowest number runs next.

* `Scheduler` is the state in the middle of a schedule: for each node the number of its ports that
  still wait, the ready nodes in order, and the nodes that have run.
* `Scheduler.next?` runs one node, `Scheduler.run` runs nodes until none is ready.
* `schedule` is the whole order; `depths` is the length of the longest path to each node.
-/

/-- For each node the nodes that feed its ports. -/
abbrev Wiring := List (List Nat)

namespace Wiring

/-- The nodes that a node feeds, in order, once for each port. -/
def consumers (w : Wiring) (producer : Nat) : List Nat :=
  w.zipIdx.flatMap fun (inputs, consumer) => List.replicate (inputs.count producer) consumer

end Wiring

/-- A number in its place of an increasing list. -/
def insertIncreasing (n : Nat) : List Nat → List Nat
  | [] => [n]
  | m :: rest => if n < m then n :: m :: rest
    else if n = m then m :: rest
    else m :: insertIncreasing n rest

/-- The state of a schedule in the making. -/
structure Scheduler where
  /-- For each node the number of ports whose node has not run. -/
  pending : List Nat
  /-- The nodes that can run, in order. -/
  ready : List Nat
  /-- The nodes that have run, in the order in which they did. -/
  order : List Nat
deriving DecidableEq, Repr

namespace Scheduler

/-- The state before any node has run. -/
def start (w : Wiring) : Scheduler :=
  let pending := w.map (·.length)
  ⟨pending, (List.range w.length).filter fun i => pending[i]? == some 0, []⟩

/-- Tells a node that one of its ports no longer waits. -/
def release (s : Scheduler) (consumer : Nat) : Scheduler :=
  let pending := s.pending.modify consumer (· - 1)
  { s with
    pending
    -- A node that another one feeds twice is told twice, and is ready at the last time only.
    ready := if pending[consumer]? == some 0 then insertIncreasing consumer s.ready else s.ready }

/-- Runs the first ready node. -/
def next? (w : Wiring) (s : Scheduler) : Option Scheduler :=
  match s.ready with
  | [] => none
  | node :: ready =>
    some ((w.consumers node).foldl release { s with ready, order := s.order ++ [node] })

/-- Runs at most `fuel` nodes. -/
def run (w : Wiring) : Nat → Scheduler → Scheduler
  | 0, s => s
  | fuel + 1, s => match s.next? w with
    | none => s
    | some s => run w fuel s

/-- The nodes that still wait. -/
def stuck (s : Scheduler) : List Nat :=
  (List.range s.pending.length).filter fun i => s.pending[i]? != some 0

end Scheduler

/-- The order of execution, or the nodes that wait for each other. No node runs twice, so there are
    at most as many steps as nodes. -/
def schedule (w : Wiring) : Except (List Nat) (List Nat) :=
  let final := Scheduler.run w w.length (.start w)
  if final.order.length = w.length then .ok final.order else .error final.stuck

/-- The number of nodes on the longest path to each node, for the nodes in an order of
    execution. -/
def depths (w : Wiring) (order : List Nat) : List Nat :=
  -- The inputs of a node come earlier in the order, so that their depths are known.
  order.foldl (fun depths node =>
    let inputs := w[node]?.getD []
    depths.set node (1 + (inputs.map fun i => depths[i]?.getD 0).foldl max 0))
    (List.replicate w.length 0)

end MeshExpr
