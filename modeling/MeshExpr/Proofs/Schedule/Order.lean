import MeshExpr.Proofs.Schedule.Invariant
import Mathlib.Data.Fintype.Card
import Mathlib.Data.Fintype.EquivFin
import Mathlib.Logic.Relation
import Mathlib.Order.WellFounded

namespace MeshExpr

open Relation

/-!
# Schedules and cycles

A schedule of a wiring runs every node once, each after all nodes that feed it. The scheduler finds
one exactly if the wiring has none of the cycles that rule it out.

* `Wiring.IsSchedule` — what a schedule is, said without the scheduler.
* `isSchedule_of_schedule` — what the scheduler returns is a schedule.
* `Wiring.IsSchedule.acyclic` — a wiring with a schedule has no cycle: along every wire the place in
  the schedule grows.
* `schedule_isOk_iff` — the scheduler returns a schedule if and only if there is no cycle. If it
  were stuck, one of the stuck nodes would be fed by none of the others.
-/

namespace Wiring

/-- The list runs every node once, each after all nodes that feed it. -/
structure IsSchedule (w : Wiring) (order : List Nat) : Prop where
  perm : order.Perm (List.range w.length)
  ordered : w.Ordered order

/-- No node feeds itself, be it directly or through other nodes. -/
def Acyclic (w : Wiring) : Prop := ∀ node, ¬ TransGen w.Feeds node node

/-- A schedule holds exactly the nodes. -/
theorem IsSchedule.mem_iff {w : Wiring} {order : List Nat} (h : w.IsSchedule order) {node : Nat} :
    node ∈ order ↔ node < w.length := by
  rw [h.perm.mem_iff, List.mem_range]

/-- It holds each of them once. -/
theorem IsSchedule.nodup {w : Wiring} {order : List Nat} (h : w.IsSchedule order) : order.Nodup :=
  h.perm.nodup_iff.mpr List.nodup_range

/-- Along a wire the place in a schedule grows. -/
theorem IsSchedule.idxOf_lt {w : Wiring} {order : List Nat} (h : w.IsSchedule order) {i node : Nat}
    (hi : w.Feeds i node) : order.idxOf i < order.idxOf node := by
  have hnode : node ∈ order := h.mem_iff.mpr hi.lt_length
  obtain ⟨before, after, rfl, hfirst⟩ := List.eq_append_cons_of_mem hnode
  have hbefore : i ∈ before := h.ordered before node after rfl i hi
  rw [List.idxOf_append_of_mem hbefore, List.idxOf_append_of_notMem hfirst, List.idxOf_cons_self]
  exact Nat.lt_of_lt_of_le (List.idxOf_lt_length_of_mem hbefore) (Nat.le_add_right _ _)

/-- A wiring with a schedule has no cycle. -/
theorem IsSchedule.acyclic {w : Wiring} {order : List Nat} (h : w.IsSchedule order) :
    w.Acyclic := by
  have hgrows : ∀ i node, TransGen w.Feeds i node → order.idxOf i < order.idxOf node := by
    intro i node hpath
    induction hpath with
    | single hi => exact h.idxOf_lt hi
    | tail _ hi ih => exact Nat.lt_trans ih (h.idxOf_lt hi)
  intro node hcycle
  exact Nat.lt_irrefl _ (hgrows node node hcycle)

/-- Among some of the nodes of a wiring, none of them on a cycle, there is one that is fed by none
    of them. -/
theorem exists_source {w : Wiring} (waits : Nat → Prop)
    (hfree : ∀ node, waits node → ¬ TransGen w.Feeds node node)
    (hsome : ∃ node < w.length, waits node) :
    ∃ node < w.length, waits node ∧ ∀ i < w.length, w.Feeds i node → ¬ waits i := by
  let Waiting := {node : Fin w.length // waits node}
  let below (i node : Waiting) : Prop := TransGen w.Feeds i.1 node.1
  have : IsTrans Waiting below := ⟨fun _ _ _ => TransGen.trans⟩
  have : Std.Irrefl below := ⟨fun node => hfree node.1 node.2⟩
  have hwf : WellFounded below := Finite.wellFounded_of_trans_of_irrefl below
  obtain ⟨node, hlt, hnode⟩ := hsome
  obtain ⟨least, -, hmin⟩ := hwf.has_min Set.univ ⟨⟨⟨node, hlt⟩, hnode⟩, trivial⟩
  exact ⟨least.1, least.1.isLt, least.2, fun i hi hfeeds hwaits =>
    hmin ⟨⟨i, hi⟩, hwaits⟩ trivial (TransGen.single hfeeds)⟩

end Wiring

open Scheduler

/-- What the scheduler returns is a schedule. -/
theorem isSchedule_of_schedule {w : Wiring} {order : List Nat} (h : schedule w = .ok order) :
    w.IsSchedule order := by
  have hsound := sound_run w w.length
  unfold schedule at h
  dsimp only at h
  split at h
  · rename_i hlen
    obtain rfl := Except.ok.inj h
    exact ⟨hsound.perm_range hlen, hsound.ordered⟩
  · exact absurd h (by simp)

/-- Without a cycle the scheduler runs all nodes. -/
theorem length_order_run {w : Wiring} (hw : w.Closed) (h : w.Acyclic) :
    (run w w.length (start w)).order.length = w.length := by
  have hsound := sound_run w w.length
  have hready := ready_run w
  set final := run w w.length (start w) with hfinal
  have hall : ∀ node < w.length, node ∈ final.order := by
    by_contra hmissing
    push Not at hmissing
    obtain ⟨node, hlt, hnode, hfed⟩ :=
      Wiring.exists_source (· ∉ final.order) (fun node _ => h node) hmissing
    -- All nodes that feed it have run, so it would be ready.
    have hmem : node ∈ final.ready := (hsound.mem_ready node).mpr ⟨hlt, hnode, fun i hi =>
      not_not.mp (hfed i (hw.lt_of_feeds hi) hi)⟩
    rw [hready] at hmem
    exact List.not_mem_nil hmem
  have hle : w.length ≤ final.order.length := by
    have hsub : (List.range w.length).Subperm final.order :=
      List.subperm_of_subset List.nodup_range fun node hnode => hall node (List.mem_range.mp hnode)
    simpa using hsub.length_le
  exact Nat.le_antisymm (by simpa using hsound.order_subperm.length_le) hle

/-- **Completeness.** The scheduler orders exactly the wirings without a cycle. -/
theorem schedule_isOk_iff {w : Wiring} (hw : w.Closed) :
    (∃ order, schedule w = .ok order) ↔ w.Acyclic := by
  constructor
  · rintro ⟨order, h⟩
    exact (isSchedule_of_schedule h).acyclic
  · intro h
    unfold schedule
    exact ⟨_, if_pos (length_order_run hw h)⟩

/-- A self-loop is a cycle; two wires from one node to another are none. -/
example : schedule [[1, 1], []] = .ok [1, 0] ∧ schedule [[], [1]] = .error [1] := by decide

end MeshExpr
