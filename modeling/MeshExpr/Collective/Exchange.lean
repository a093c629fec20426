namespace MeshExpr

/-!
# Exchanges in shared memory

The ranks of a group that share their memory exchange contributions through one slot for each rank
and a barrier. In each round a rank stores its contribution in its slot, waits at the barrier,
copies all slots, and waits at the barrier again, so that no slot is written for the next round
before every rank has copied this one. Between these steps the other ranks may do anything.

* `Exchange` is the state of a group, `Exchange.Phase` what a rank does next.
* `Exchange.step?` is one step of one rank, if the rank can take it.
* `Exchange.runRounds` lets the ranks take turns until all rounds are over.
-/

namespace Exchange

/-- What a rank does next. -/
inductive Phase where
  /-- Store its contribution in its slot. -/
  | store
  /-- Arrive at the barrier. -/
  | arrive
  /-- Leave the barrier, which had opened `generation` times when the rank arrived. -/
  | leave (generation : Nat)
  /-- Copy all slots. -/
  | copy
  /-- Arrive at the barrier again, with the slots that it copied. -/
  | arriveAgain (copied : List (List Float))
  /-- Leave the barrier again, and the round with it. -/
  | leaveAgain (generation : Nat) (copied : List (List Float))
deriving DecidableEq

/-- A rank in the middle of its rounds. -/
structure Rank where
  phase : Phase := .store
  /-- Its contributions to the rounds that it has not begun. -/
  coming : List (List Float)
  /-- What the rounds that are over have given it. -/
  received : List (List (List Float)) := []
deriving DecidableEq

end Exchange

/-- The state of a group that exchanges contributions. -/
structure Exchange where
  ranks : List Exchange.Rank
  /-- What each rank has stored last. -/
  slots : List (List Float)
  /-- How many ranks wait at the barrier. -/
  arrived : Nat := 0
  /-- How often the barrier has opened. -/
  generation : Nat := 0
deriving DecidableEq

namespace Exchange

/-- A group before the first round; each rank is given by its contributions to the rounds. -/
def start (contributions : List (List (List Float))) : Exchange :=
  ⟨contributions.map fun coming => { coming }, contributions.map fun _ => [], 0, 0⟩

/-- One more rank waits at the barrier. The last one of the group opens it. -/
def arriveAtBarrier (e : Exchange) : Exchange :=
  if e.arrived + 1 = e.ranks.length then
    { e with arrived := 0, generation := e.generation + 1 }
  else { e with arrived := e.arrived + 1 }

/-- The group after a rank has changed its state. -/
def setRank (e : Exchange) (i : Nat) (rank : Rank) : Exchange :=
  { e with ranks := e.ranks.set i rank }

/-- One step of one rank. A rank that has no round left, or waits at a barrier that has not opened
    since it arrived, can take none. -/
def step? (e : Exchange) (i : Nat) : Option Exchange := do
  let rank ← e.ranks[i]?
  match rank.phase with
  | .store => match rank.coming with
    | [] => none
    | contribution :: coming =>
      some { e.setRank i { rank with phase := .arrive, coming } with
        slots := e.slots.set i contribution }
  | .arrive => some (e.arriveAtBarrier.setRank i { rank with phase := .leave e.generation })
  | .leave generation =>
    if generation < e.generation then some (e.setRank i { rank with phase := .copy }) else none
  -- All slots are copied in one step, as under a lock.
  | .copy => some (e.setRank i { rank with phase := .arriveAgain e.slots })
  | .arriveAgain copied =>
    some (e.arriveAtBarrier.setRank i { rank with phase := .leaveAgain e.generation copied })
  | .leaveAgain generation copied =>
    if generation < e.generation then
      some (e.setRank i
        { rank with phase := .store, received := rank.received ++ [copied] })
    else none

/-- Every rank in turn takes a step, if it can. -/
def turn (e : Exchange) : Exchange :=
  (List.range e.ranks.length).foldl (fun e i => (e.step? i).getD e) e

/-- What each rank has received when the ranks of a group have taken turns for `rounds` rounds;
    each round is six turns. -/
def runRounds (rounds : Nat) (contributions : List (List (List Float))) :
    List (List (List (List Float))) :=
  (Nat.repeat turn (6 * rounds) (start contributions)).ranks.map (·.received)

end Exchange

end MeshExpr
