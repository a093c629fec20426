import MeshExpr.Plan.Schedule
import MeshExpr.Proofs.Checked
import Mathlib.Data.List.Nodup
import Mathlib.Data.List.Perm.Subperm
import Mathlib.Data.List.Range

namespace MeshExpr

/-!
# What the scheduler knows in the middle of a schedule

The scheduler counts down, for each node, the ports that still wait, and keeps the nodes whose count
has reached zero in a sorted list. `Scheduler.Sound` says that counts and list are what they are
meant to be, for every wiring, one with cycles, self-loops or several wires between the same two
nodes included.

* `Wiring.count_consumers` — a node is told of its producer once for each port that it feeds.
* `Scheduler.mem_ready_foldl_release` — telling all consumers of a node makes exactly those ready
  whose count reaches zero; no count goes below zero.
* `Scheduler.Sound.mem_ready_after_iff` — a step makes exactly those nodes ready that are meant to
  be.
* `Scheduler.Sound.next` is the step, `Scheduler.sound_run` the run, and `Scheduler.ready_run` says
  that as many steps as there are nodes leave no node ready.
-/

/-! ### Wirings -/

namespace Wiring

/-- The nodes that feed the ports of a node, in the order of the ports. -/
def inputsOf (w : Wiring) (node : Nat) : List Nat := w[node]?.getD []

/-- Every port is fed by a node of the wiring. -/
def Closed (w : Wiring) : Prop := ∀ inputs ∈ w, ∀ i ∈ inputs, i < w.length

/-- Whether the first node feeds a port of the second one. -/
def Feeds (w : Wiring) (producer consumer : Nat) : Prop := producer ∈ w.inputsOf consumer

/-- Every node of a list comes after all nodes that feed it. -/
def Ordered (w : Wiring) (order : List Nat) : Prop :=
  ∀ before node after, order = before ++ node :: after → ∀ i ∈ w.inputsOf node, i ∈ before

/-- Nothing feeds what is no node. -/
theorem inputsOf_eq_nil {w : Wiring} {node : Nat} (h : w.length ≤ node) : w.inputsOf node = [] := by
  unfold inputsOf
  rw [List.getElem?_eq_none h, Option.getD_none]

/-- Only nodes are fed. -/
theorem Feeds.lt_length {w : Wiring} {i node : Nat} (h : w.Feeds i node) : node < w.length := by
  by_contra hlt
  unfold Feeds at h
  rw [inputsOf_eq_nil (Nat.le_of_not_lt hlt)] at h
  exact absurd h List.not_mem_nil

/-- In a closed wiring, only nodes feed. -/
theorem Closed.lt_of_feeds {w : Wiring} (hw : w.Closed) {i node : Nat} (h : w.Feeds i node) :
    i < w.length := by
  have hnode : node < w.length := h.lt_length
  unfold Feeds inputsOf at h
  rw [List.getElem?_eq_getElem hnode, Option.getD_some] at h
  exact hw _ (List.getElem_mem hnode) i h

/-- The count of a node among the consumers of a node, for the part of a wiring that begins with
    the node `first`. -/
private theorem count_consumers_from (w : Wiring) (producer consumer first : Nat) :
    ((w.zipIdx first).flatMap fun (inputs, c) => List.replicate (inputs.count producer) c).count
        consumer
      = if first ≤ consumer then ((w[consumer - first]?).getD []).count producer else 0 := by
  induction w generalizing first with
  | nil => simp
  | cons inputs rest ih =>
    rw [List.zipIdx_cons, List.flatMap_cons, List.count_append, ih, List.count_replicate]
    -- The first row is that of a node before the consumer, of the consumer itself, or of one behind
    -- it.
    rcases Nat.lt_trichotomy first consumer with hlt | rfl | hgt
    · have hsub : consumer - first = consumer - (first + 1) + 1 := by omega
      have hne : (first == consumer) = false := by simp; omega
      rw [hne, hsub, List.getElem?_cons_succ]
      simp [show first ≤ consumer by omega, show first + 1 ≤ consumer by omega]
    · simp
    · have hne : (first == consumer) = false := by simp; omega
      simp [hne, show ¬ first ≤ consumer by omega, show ¬ first + 1 ≤ consumer by omega]

/-- A node is told of its producer once for each port that the producer feeds. -/
theorem count_consumers (w : Wiring) (producer consumer : Nat) :
    (w.consumers producer).count consumer = (w.inputsOf consumer).count producer := by
  unfold consumers inputsOf
  rw [count_consumers_from w producer consumer 0]
  simp

/-- The consumers of a node are those that it feeds. -/
theorem mem_consumers {w : Wiring} {producer consumer : Nat} :
    consumer ∈ w.consumers producer ↔ w.Feeds producer consumer := by
  rw [← List.count_pos_iff, count_consumers, List.count_pos_iff]
  rfl

/-- One more node keeps a list ordered if all nodes that feed it are in the list. -/
theorem Ordered.concat {w : Wiring} {order : List Nat} (h : w.Ordered order) {node : Nat}
    (hnode : ∀ i ∈ w.inputsOf node, i ∈ order) : w.Ordered (order ++ [node]) :=
  forall_split_concat_iff.mpr ⟨h, hnode⟩

/-- The nodes that feed a node of an ordered list are in the list. -/
theorem Ordered.mem_of_feeds {w : Wiring} {order : List Nat} (h : w.Ordered order) {i node : Nat}
    (hnode : node ∈ order) (hi : w.Feeds i node) : i ∈ order := by
  obtain ⟨before, after, rfl⟩ := List.append_of_mem hnode
  exact List.mem_append_left _ (h before node after rfl i hi)

end Wiring

/-! ### Sorted lists of ready nodes -/

/-- Inserting adds one number and drops none. -/
theorem mem_insertIncreasing {n m : Nat} {l : List Nat} :
    m ∈ insertIncreasing n l ↔ m = n ∨ m ∈ l := by
  induction l with
  | nil => simp [insertIncreasing]
  | cons x rest ih =>
    unfold insertIncreasing
    split
    · exact List.mem_cons
    · split
      · rename_i heq
        subst heq
        simp
      · rw [List.mem_cons, ih, List.mem_cons]
        tauto

/-- Inserting keeps a list increasing and without repetitions. -/
theorem pairwise_insertIncreasing (n : Nat) {l : List Nat} (h : l.Pairwise (· < ·)) :
    (insertIncreasing n l).Pairwise (· < ·) := by
  induction l with
  | nil => simp [insertIncreasing]
  | cons x rest ih =>
    obtain ⟨hx, hrest⟩ := List.pairwise_cons.mp h
    unfold insertIncreasing
    split
    · rename_i hlt
      refine List.pairwise_cons.mpr ⟨fun m hm => ?_, h⟩
      rcases List.mem_cons.mp hm with rfl | hm
      · exact hlt
      · exact Nat.lt_trans hlt (hx m hm)
    · split
      · exact h
      · refine List.pairwise_cons.mpr ⟨fun m hm => ?_, ih hrest⟩
        -- Behind the first number stand the new one, which is greater, and the others.
        rcases mem_insertIncreasing.mp hm with rfl | hm
        · omega
        · exact hx m hm

namespace Scheduler

/-! ### Telling the consumers of a node -/

@[simp] theorem release_order (s : Scheduler) (c : Nat) : (s.release c).order = s.order := rfl

/-- A node that is told waits for one port less, all others wait as before. -/
theorem getElem?_pending_release (s : Scheduler) (c c' : Nat) :
    (s.release c').pending[c]? = s.pending[c]?.map fun n => if c' = c then n - 1 else n :=
  List.getElem?_modify _ _ _ _

/-- Releases leave the order alone. -/
theorem order_foldl_release (s : Scheduler) (cs : List Nat) :
    (cs.foldl release s).order = s.order := by
  induction cs generalizing s with
  | nil => rfl
  | cons c rest ih => rw [List.foldl_cons, ih, release_order]

/-- Every node that is told `k` times waits for `k` ports less. -/
theorem pending_foldl_release (s : Scheduler) (cs : List Nat) (c : Nat) :
    (cs.foldl release s).pending[c]? = s.pending[c]?.map (· - cs.count c) := by
  induction cs generalizing s with
  | nil => simp
  | cons c' rest ih =>
    rw [List.foldl_cons, ih, getElem?_pending_release, Option.map_map, List.count_cons]
    congr 1
    funext n
    by_cases hc : c' = c
    · simp [hc]; omega
    · simp [hc]

/-- A release makes ready only what waits for nothing any more. -/
theorem mem_ready_release {s : Scheduler} {c c' : Nat} :
    c' ∈ (s.release c).ready ↔
      c' ∈ s.ready ∨ (c' = c ∧ s.pending[c]?.map (· - 1) = some 0) := by
  have hpending : (s.pending.modify c (· - 1))[c]? = s.pending[c]?.map (· - 1) := by simp
  unfold release
  simp only [hpending, beq_iff_eq]
  split
  · rename_i h
    rw [mem_insertIncreasing]
    simp only [h, and_true]
    tauto
  · rename_i h
    simp [h]

/-- None of the nodes of a list is told more often than it has waiting ports. -/
def Room (s : Scheduler) (cs : List Nat) : Prop :=
  ∀ c ∈ cs, ∃ n, s.pending[c]? = some n ∧ cs.count c ≤ n

/-- There is still room for the others when the first one has been told. -/
theorem Room.release {s : Scheduler} {c : Nat} {cs : List Nat} (h : s.Room (c :: cs)) :
    (s.release c).Room cs := by
  intro x hx
  obtain ⟨n, hn, hle⟩ := h x (List.mem_cons_of_mem _ hx)
  rw [List.count_cons] at hle
  rw [getElem?_pending_release, hn]
  by_cases hxc : c = x
  · rw [if_pos (by simpa using hxc)] at hle
    exact ⟨n - 1, by simp [hxc], by omega⟩
  · rw [if_neg (by simpa using hxc)] at hle
    exact ⟨n, by simp [hxc], by omega⟩

/-- Telling the nodes of a list, none of them more often than it has waiting ports, makes exactly
    those ready that are told as often as they have waiting ports. -/
theorem mem_ready_foldl_release {s : Scheduler} {cs : List Nat} (h : s.Room cs) (c : Nat) :
    c ∈ (cs.foldl release s).ready ↔
      c ∈ s.ready ∨ (c ∈ cs ∧ s.pending[c]? = some (cs.count c)) := by
  induction cs generalizing s with
  | nil => simp
  | cons c' rest ih =>
    rw [List.foldl_cons, ih h.release, mem_ready_release, getElem?_pending_release,
      List.count_cons, List.mem_cons, or_assoc]
    refine or_congr_right ?_
    -- Told once more, the node itself needs one time less; the others need as many as before.
    by_cases hc : c' = c
    · subst hc
      obtain ⟨n, hn, hle⟩ := h c' List.mem_cons_self
      rw [List.count_cons_self] at hle
      simp only [hn, Option.map_some, Option.some.injEq, BEq.rfl, ↓reduceIte, true_and, true_or]
      by_cases hmem : c' ∈ rest
      · have hpos : 0 < rest.count c' := List.count_pos_iff.mpr hmem
        simp only [hmem, true_and]
        omega
      · have hzero : rest.count c' = 0 := List.count_eq_zero_of_not_mem hmem
        simp only [hmem, hzero, false_and, or_false]
        omega
    · have hne : (c' == c) = false := by simpa using hc
      simp [hc, hne, Ne.symm hc]

/-- Releases keep the ready nodes increasing. -/
theorem pairwise_ready_foldl_release {s : Scheduler} (h : s.ready.Pairwise (· < ·))
    (cs : List Nat) : (cs.foldl release s).ready.Pairwise (· < ·) := by
  induction cs generalizing s with
  | nil => exact h
  | cons c rest ih =>
    rw [List.foldl_cons]
    apply ih
    unfold release
    dsimp only
    split
    · exact pairwise_insertIncreasing c h
    · exact h

/-! ### The invariant -/

/-- The state of a schedule in the making is what it is meant to be. -/
structure Sound (w : Wiring) (s : Scheduler) : Prop where
  /-- Each node waits for those of its ports whose node has not run. -/
  pending_eq : s.pending = w.map fun inputs => inputs.countP (· ∉ s.order)
  /-- Ready are the nodes that have not run and whose inputs all have. -/
  mem_ready : ∀ node, node ∈ s.ready ↔
    node < w.length ∧ node ∉ s.order ∧ ∀ i ∈ w.inputsOf node, i ∈ s.order
  /-- Of the ready nodes the one with the lowest number is the first. -/
  ready_sorted : s.ready.Pairwise (· < ·)
  /-- No node runs twice. -/
  order_nodup : s.order.Nodup
  /-- Only nodes of the wiring run. -/
  order_lt : ∀ node ∈ s.order, node < w.length
  /-- Every node has run after all nodes that feed it. -/
  ordered : w.Ordered s.order

/-- The scheduler starts in a sound state. -/
theorem sound_start (w : Wiring) : (start w).Sound w where
  pending_eq := by simp [start]
  mem_ready := by
    intro node
    simp only [start, List.mem_filter, List.mem_range, beq_iff_eq, List.getElem?_map,
      List.not_mem_nil, not_false_eq_true, true_and, Wiring.inputsOf]
    refine and_congr_right fun hnode => ?_
    rw [List.getElem?_eq_getElem hnode]
    simp [List.eq_nil_iff_forall_not_mem]
  ready_sorted := List.pairwise_lt_range.filter _
  order_nodup := List.nodup_nil
  order_lt := fun _ h => absurd h List.not_mem_nil
  ordered := fun _ _ _ h => by simp [start] at h

/-- The number of waiting ports of a node. -/
theorem Sound.getElem?_pending {w : Wiring} {s : Scheduler} (h : s.Sound w) {node : Nat}
    (hnode : node < w.length) :
    s.pending[node]? = some ((w.inputsOf node).countP (· ∉ s.order)) := by
  unfold Wiring.inputsOf
  rw [h.pending_eq, List.getElem?_map, List.getElem?_eq_getElem hnode]
  rfl

/-- A node that has not run yet accounts for the ports that it feeds. -/
private theorem countP_concat {order : List Nat} {node : Nat} (hnode : node ∉ order)
    (inputs : List Nat) :
    inputs.countP (· ∉ order ++ [node]) + inputs.count node = inputs.countP (· ∉ order) := by
  induction inputs with
  | nil => rfl
  | cons i rest ih =>
    rw [List.countP_cons, List.countP_cons, List.count_cons]
    by_cases hi : i = node
    · subst hi
      simp [hnode] at ih ⊢
      omega
    · have hmem : i ∈ order ++ [node] ↔ i ∈ order := by simp [hi]
      simp only [hmem, beq_eq_false_iff_ne.mpr hi]
      simp at ih ⊢
      omega

/-- The state when a ready node has run and all its consumers have been told. -/
def after (w : Wiring) (s : Scheduler) (node : Nat) (ready : List Nat) : Scheduler :=
  (w.consumers node).foldl release { s with ready, order := s.order ++ [node] }

@[simp] theorem order_after (w : Wiring) (s : Scheduler) (node : Nat) (ready : List Nat) :
    (s.after w node ready).order = s.order ++ [node] :=
  order_foldl_release _ _

/-- One step takes the first ready node. -/
theorem next?_eq_some_iff {w : Wiring} {s s' : Scheduler} :
    s.next? w = some s' ↔ ∃ node ready, s.ready = node :: ready ∧ s' = s.after w node ready := by
  unfold next? after
  cases s.ready with
  | nil => simp
  | cons node ready => simp [eq_comm]

namespace Sound

variable {w : Wiring} {s s' : Scheduler} {node : Nat} {ready : List Nat}

/-- Behind the step, every node waits for those of its inputs that are not in the order. -/
theorem pending_after (h : s.Sound w) (hnew : node ∉ s.order) :
    (s.after w node ready).pending = w.map fun inputs =>
      inputs.countP (· ∉ s.order ++ [node]) := by
  apply List.ext_getElem?
  intro c
  unfold after
  rw [pending_foldl_release, h.pending_eq, List.getElem?_map, List.getElem?_map, Option.map_map,
    Wiring.count_consumers]
  cases hc : w[c]? with
  | none => rfl
  | some inputs =>
    have hcount := countP_concat hnew inputs
    simp only [Option.map_some, Function.comp_apply, Wiring.inputsOf, hc, Option.getD_some,
      Option.some.injEq]
    omega

/-- No consumer of a node is told more often than it has waiting ports. -/
theorem room (h : s.Sound w) (hnew : node ∉ s.order) : s.Room (w.consumers node) := by
  intro c hc
  refine ⟨_, h.getElem?_pending (Wiring.mem_consumers.mp hc).lt_length, ?_⟩
  rw [Wiring.count_consumers, ← countP_concat hnew (w.inputsOf c)]
  exact Nat.le_add_left _ _

/-- A node is ready after a step if it was ready before and has not run now, or if its last waiting
    ports are fed by the node that has run. -/
theorem mem_ready_after (h : s.Sound w) (hready : s.ready = node :: ready) {c : Nat} :
    c ∈ (s.after w node ready).ready ↔ c ∈ ready ∨ (w.Feeds node c
      ∧ (w.inputsOf c).countP (· ∉ s.order ++ [node]) = 0) := by
  obtain ⟨-, hnew, -⟩ := (h.mem_ready node).mp (by simp [hready])
  have hroom : Room { s with ready, order := s.order ++ [node] } (w.consumers node) := h.room hnew
  unfold after
  rw [mem_ready_foldl_release hroom, Wiring.mem_consumers]
  refine or_congr_right (and_congr_right fun hfeeds => ?_)
  have hcount := countP_concat hnew (w.inputsOf c)
  show s.pending[c]? = _ ↔ _
  rw [h.getElem?_pending hfeeds.lt_length, Option.some.injEq, Wiring.count_consumers]
  omega

/-- After a step those nodes are ready that are meant to be. -/
theorem mem_ready_after_iff (h : s.Sound w) (hready : s.ready = node :: ready) {c : Nat} :
    c ∈ (s.after w node ready).ready ↔ c < w.length ∧ c ∉ s.order ++ [node]
      ∧ ∀ i ∈ w.inputsOf c, i ∈ s.order ++ [node] := by
  obtain ⟨-, hnew, hinputs⟩ := (h.mem_ready node).mp (by simp [hready])
  obtain ⟨hleast, -⟩ := List.pairwise_cons.mp (hready ▸ h.ready_sorted)
  have hzero : (w.inputsOf c).countP (· ∉ s.order ++ [node]) = 0
      ↔ ∀ i ∈ w.inputsOf c, i ∈ s.order ++ [node] := by
    rw [List.countP_eq_zero]
    exact forall₂_congr fun i _ => by simp [or_iff_not_imp_left]
  rw [h.mem_ready_after hready, hzero]
  constructor
  · rintro (hc | ⟨hfeeds, hfed⟩)
    · obtain ⟨hclt, hcnew, hcin⟩ := (h.mem_ready c).mp (by simp [hready, hc])
      have hne : c ≠ node := Nat.ne_of_gt (hleast c hc)
      exact ⟨hclt, by simp [hcnew, hne], fun i hi => List.mem_append_left _ (hcin i hi)⟩
    · -- A node that has run, or runs now, is fed by none that runs now.
      have hcnew : c ∉ s.order := fun hmem => hnew (h.ordered.mem_of_feeds hmem hfeeds)
      have hne : c ≠ node := by
        rintro rfl
        exact hnew (hinputs c hfeeds)
      exact ⟨hfeeds.lt_length, by simp [hcnew, hne], hfed⟩
  · rintro ⟨hclt, hcnew, hcin⟩
    obtain ⟨hcnew, hne⟩ : c ∉ s.order ∧ c ≠ node := by simpa using hcnew
    by_cases hfeeds : w.Feeds node c
    · exact .inr ⟨hfeeds, hcin⟩
    · -- None of its inputs runs now, so all of them have run before.
      have hmem : c ∈ s.ready := by
        refine (h.mem_ready c).mpr ⟨hclt, hcnew, fun i hi => ?_⟩
        rcases List.mem_append.mp (hcin i hi) with hi' | hi'
        · exact hi'
        · obtain rfl : i = node := by simpa using hi'
          exact absurd hi hfeeds
      rw [hready] at hmem
      exact .inl ((List.mem_cons.mp hmem).resolve_left hne)

/-- **Step.** Running the first ready node keeps the state what it is meant to be. -/
theorem next (h : s.Sound w) (hs : s.next? w = some s') : s'.Sound w := by
  obtain ⟨node, ready, hready, rfl⟩ := next?_eq_some_iff.mp hs
  obtain ⟨hlt, hnew, hinputs⟩ := (h.mem_ready node).mp (by simp [hready])
  obtain ⟨-, hsorted⟩ := List.pairwise_cons.mp (hready ▸ h.ready_sorted)
  constructor
  case pending_eq => rw [h.pending_after hnew, order_after]
  -- Ready are those that were, and those that were waiting for nothing but this node.
  case mem_ready =>
    intro c
    rw [h.mem_ready_after_iff hready, order_after]
  case ready_sorted => exact pairwise_ready_foldl_release hsorted _
  case order_nodup =>
    rw [order_after, ← List.concat_eq_append]
    exact h.order_nodup.concat hnew
  case order_lt =>
    intro c hc
    rw [order_after] at hc
    rcases List.mem_append.mp hc with hc | hc
    · exact h.order_lt c hc
    · obtain rfl : c = node := by simpa using hc
      exact hlt
  case ordered =>
    rw [order_after]
    exact h.ordered.concat hinputs

end Sound

/-- A step runs exactly one node. -/
theorem length_order_next {w : Wiring} {s s' : Scheduler} (hs : s.next? w = some s') :
    s'.order.length = s.order.length + 1 := by
  obtain ⟨node, ready, -, rfl⟩ := next?_eq_some_iff.mp hs
  simp

/-! ### Runs -/

/-- **Run.** However many nodes run, the state is what it is meant to be. -/
theorem Sound.run {w : Wiring} {s : Scheduler} (h : s.Sound w) (fuel : Nat) :
    (Scheduler.run w fuel s).Sound w := by
  induction fuel generalizing s with
  | zero => exact h
  | succ fuel ih =>
    unfold Scheduler.run
    cases hs : s.next? w with
    | none => exact h
    | some s' => exact ih (h.next hs)

/-- **Every state that the scheduler reaches is sound.** -/
theorem sound_run (w : Wiring) (fuel : Nat) : (Scheduler.run w fuel (start w)).Sound w :=
  (sound_start w).run fuel

/-- A run ends when no node is ready, or has run as many nodes as it was allowed to. -/
theorem ready_or_length_run (w : Wiring) (fuel : Nat) (s : Scheduler) :
    (Scheduler.run w fuel s).ready = []
      ∨ (Scheduler.run w fuel s).order.length = s.order.length + fuel := by
  -- By the nodes that it is still allowed to run.
  induction fuel generalizing s with
  | zero => exact .inr rfl
  | succ fuel ih =>
    unfold Scheduler.run
    cases hs : s.next? w with
    | none =>
      refine .inl ?_
      unfold next? at hs
      cases hready : s.ready with
      | nil => rfl
      | cons node ready => simp [hready] at hs
    | some s' =>
      refine (ih s').imp_right fun h => ?_
      rw [h, length_order_next hs]
      omega

/-- The order never has a node twice, and never one that is not there. -/
theorem Sound.order_subperm {w : Wiring} {s : Scheduler} (h : s.Sound w) :
    s.order.Subperm (List.range w.length) :=
  List.subperm_of_subset h.order_nodup fun node hnode => List.mem_range.mpr (h.order_lt node hnode)

/-- A state in which as many nodes have run as there are has run all of them. -/
theorem Sound.perm_range {w : Wiring} {s : Scheduler} (h : s.Sound w)
    (hlen : s.order.length = w.length) : s.order.Perm (List.range w.length) :=
  h.order_subperm.perm_of_length_le (by simp [hlen])

/-- As many steps as there are nodes leave no node ready. -/
theorem ready_run (w : Wiring) : (Scheduler.run w w.length (start w)).ready = [] := by
  rcases ready_or_length_run w w.length (start w) with h | h
  · exact h
  · have hsound := sound_run w w.length
    have hlen : (Scheduler.run w w.length (start w)).order.length = w.length := by
      rw [h]
      simp [start]
    apply List.eq_nil_iff_forall_not_mem.mpr
    intro node hnode
    obtain ⟨hlt, hnew, -⟩ := (hsound.mem_ready node).mp hnode
    exact hnew ((hsound.perm_range hlen).mem_iff.mpr (List.mem_range.mpr hlt))

end Scheduler

end MeshExpr
