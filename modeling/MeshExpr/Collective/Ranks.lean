import MeshExpr.Collective.Basic

namespace MeshExpr.Collective

/-!
# All ranks of a group at once

The ranks of a group run their programs side by side, and every exchange answers every rank with
the contributions of all of them in the order of the ranks. An exchange needs all ranks: a group in
which one rank is done while another one still wants an exchange is stalled.

* `lockstep` runs the programs of a group with a lowest rank, `runRanks` those of any group.
-/

variable {α : Type}

/-- The result of a program that is done. -/
def result? : Collective α → Option α
  | done a => some a
  | exchange _ _ => none

/-- What a program contributes to its next exchange. -/
def contribution? : Collective α → Option (List Float)
  | done _ => none
  | exchange sent _ => some sent

/-- The program after an exchange. -/
def resume (answer : Answer) : Collective α → Collective α
  | done a => done a
  | exchange _ next => next answer

/-- Runs the programs of a group whose lowest rank is given first. -/
def lockstep (lowest : Collective α) (others : List (Collective α)) : Option (List α) :=
  match lowest with
  | done a => (others.mapM result?).map (a :: ·)
  | exchange sent next => do
    -- The group stalls here if another rank is already done.
    let contributions ← others.mapM contribution?
    let answer : Answer := .ok (sent :: contributions)
    lockstep (next answer) (others.map (resume answer))

/-- Runs the programs of a group; the outcome is `none` when the group stalls. -/
def runRanks : List (Collective α) → Option (List α)
  | [] => some []
  | lowest :: others => lockstep lowest others

end MeshExpr.Collective
