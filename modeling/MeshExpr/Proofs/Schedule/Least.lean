import MeshExpr.Proofs.Schedule.Order
import Mathlib.Data.List.Lex
import Mathlib.Order.Bounds.Basic

namespace MeshExpr

/-!
# The least schedule

Of the nodes that can run the scheduler takes the lowest one. This makes its schedule the least of
all: at the first place at which another schedule differs, the other one runs a higher node. Lists
of nodes are compared in the lexicographic order here.

* `Wiring.Greedy` — at every place of a list the lowest node runs that can.
* `Scheduler.greedy_next` is the step, `Scheduler.greedy_run` the run.
* `Wiring.Greedy.le` — the exchange argument: no schedule is less than a greedy one.
* `isLeast_of_schedule` — what the scheduler returns is the least schedule.
-/

namespace Wiring

variable {w : Wiring} {order other : List Nat}

/-- Every lower node than the one that runs has run before or waits for a node that has not. -/
def Greedy (w : Wiring) (order : List Nat) : Prop :=
  ∀ before node after, order = before ++ node :: after →
    ∀ lower < node, lower ∉ before → ∃ i ∈ w.inputsOf lower, i ∉ before

/-- One more node keeps a list greedy if no lower one can run. -/
theorem Greedy.concat (h : w.Greedy order) {node : Nat}
    (hnode : ∀ lower < node, lower ∉ order → ∃ i ∈ w.inputsOf lower, i ∉ order) :
    w.Greedy (order ++ [node]) :=
  forall_split_concat_iff.mpr ⟨h, hnode⟩

/-- In an order without repetitions, a node is not before itself. -/
theorem not_mem_before (h : order.Nodup) {before after : List Nat} {node : Nat}
    (heq : order = before ++ node :: after) : node ∉ before := by
  subst heq
  exact fun hmem => List.disjoint_of_nodup_append h hmem List.mem_cons_self

/-- Of two schedules that begin alike, the greedy one goes on with the lower node. -/
theorem Greedy.le_of_append (h : w.Greedy order) (horder : w.IsSchedule order)
    (hother : w.IsSchedule other) {before rest rest' : List Nat} (heq : order = before ++ rest)
    (heq' : other = before ++ rest') : rest ≤ rest' := by
  -- The induction is on what follows the common beginning; it grows by the nodes that agree.
  induction rest generalizing before rest' with
  | nil =>
    have hlen := (horder.perm.trans hother.perm.symm).length_eq
    have hnil : rest'.length = 0 := by
      rw [heq, heq'] at hlen
      simpa using hlen.symm
    rw [List.eq_nil_of_length_eq_zero hnil]
  | cons node rest ih =>
    cases rest' with
    | nil =>
      have hlen := (horder.perm.trans hother.perm.symm).length_eq
      rw [heq, heq'] at hlen
      simp at hlen
    | cons node' rest' =>
      rcases Nat.lt_trichotomy node node' with hlt | rfl | hgt
      · exact le_of_lt (.rel hlt)
      · have hnext : order = (before ++ [node]) ++ rest := by simpa using heq
        have hnext' : other = (before ++ [node]) ++ rest' := by simpa using heq'
        exact List.cons_le_cons node (ih hnext hnext')
      · -- The other schedule runs a lower node here, so all nodes that feed it have run.
        obtain ⟨i, hi, hwaits⟩ :=
          h before node rest heq node' hgt (not_mem_before hother.nodup heq')
        exact absurd (hother.ordered before node' rest' heq' i hi) hwaits

/-- **No schedule is less than a greedy one.** -/
theorem Greedy.le (h : w.Greedy order) (horder : w.IsSchedule order)
    (hother : w.IsSchedule other) : order ≤ other :=
  h.le_of_append horder hother (List.nil_append order).symm (List.nil_append other).symm

/-- Whether a list is a schedule can be seen from the places of the nodes in it. -/
theorem isSchedule_iff_idxOf : w.IsSchedule order ↔ order.Perm (List.range w.length)
    ∧ ∀ i node, w.Feeds i node → order.idxOf i < order.idxOf node := by
  refine ⟨fun h => ⟨h.perm, fun i node => h.idxOf_lt⟩, fun ⟨hperm, hplaces⟩ => ⟨hperm, ?_⟩⟩
  intro before node after heq i hi
  have hfirst : node ∉ before := not_mem_before (hperm.nodup_iff.mpr List.nodup_range) heq
  have hlt := hplaces i node hi
  rw [heq, List.idxOf_append_of_notMem hfirst, List.idxOf_cons_self] at hlt
  by_contra hmem
  rw [List.idxOf_append_of_notMem hmem] at hlt
  omega

end Wiring

/-- Numbers in increasing order are the least of all lists of these numbers. -/
theorem le_of_perm_of_pairwise {l l' : List Nat} (h : l.Pairwise (· < ·)) (hperm : l'.Perm l) :
    l ≤ l' := by
  induction l generalizing l' with
  | nil => rw [hperm.eq_nil]
  | cons n rest ih =>
    obtain ⟨hn, hrest⟩ := List.pairwise_cons.mp h
    cases l' with
    | nil => exact absurd hperm.symm.eq_nil (by simp)
    | cons m rest' =>
      rcases List.mem_cons.mp (hperm.mem_iff.mp List.mem_cons_self) with rfl | hm
      · exact List.cons_le_cons m (ih hrest hperm.cons_inv)
      · exact le_of_lt (.rel (hn m hm))

namespace Scheduler

variable {w : Wiring} {s s' : Scheduler}

/-- **Step.** The node that runs is the lowest one that can. -/
theorem greedy_next (h : s.Sound w) (hgreedy : w.Greedy s.order) (hs : s.next? w = some s') :
    w.Greedy s'.order := by
  obtain ⟨node, ready, hready, rfl⟩ := next?_eq_some_iff.mp hs
  obtain ⟨hlt, -⟩ := (h.mem_ready node).mp (by simp [hready])
  obtain ⟨hleast, -⟩ := List.pairwise_cons.mp (hready ▸ h.ready_sorted)
  rw [order_after]
  refine hgreedy.concat fun lower hlower hnew => ?_
  by_contra hfed
  push Not at hfed
  -- It would be ready, and then it would stand in front of the node that runs.
  have hmem : lower ∈ s.ready := (h.mem_ready lower).mpr ⟨by omega, hnew, hfed⟩
  rw [hready] at hmem
  rcases List.mem_cons.mp hmem with rfl | hmem
  · omega
  · have := hleast lower hmem
    omega

/-- **Run.** However far the scheduler goes, every node that has run was the lowest one that
    could. -/
theorem greedy_run (h : s.Sound w) (hgreedy : w.Greedy s.order) (fuel : Nat) :
    w.Greedy (run w fuel s).order := by
  induction fuel generalizing s with
  | zero => exact hgreedy
  | succ fuel ih =>
    unfold run
    cases hs : s.next? w with
    | none => exact hgreedy
    | some s' => exact ih (h.next hs) (greedy_next h hgreedy hs)

end Scheduler

/-- **The scheduler returns the least schedule.** -/
theorem isLeast_of_schedule {w : Wiring} {order : List Nat} (h : schedule w = .ok order) :
    IsLeast {order | w.IsSchedule order} order := by
  have horder := isSchedule_of_schedule h
  have hstart : w.Greedy (Scheduler.start w).order := fun _ _ _ heq => by
    simp [Scheduler.start] at heq
  have hgreedy := Scheduler.greedy_run (Scheduler.sound_start w) hstart w.length
  unfold schedule at h
  dsimp only at h
  split at h
  · obtain rfl := Except.ok.inj h
    exact ⟨horder, fun other hother => hgreedy.le horder hother⟩
  · exact absurd h (by simp)

end MeshExpr
