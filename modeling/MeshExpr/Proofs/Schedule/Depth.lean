import MeshExpr.Proofs.Schedule.Order
import Mathlib.Data.List.Chain
import Mathlib.Order.Bounds.Basic

namespace MeshExpr

/-!
# The longest path to a node

The depth of a node is the number of nodes on the longest path to it. There may be a great many
paths, for nodes share what feeds them; the planner goes over the nodes once, in an order in which
the depths of all nodes that feed a node are known when its turn comes.

* `IsPathTo` and `pathLengths` — the paths to a node and their lengths, for any relation of feeding.
* `mem_pathLengths_iff` — a path is a node alone, or goes on from a path to a node that feeds it.
* `pathLengths_subset` — paths can be followed in another relation that simulates the first one.
* `Wiring.isGreatest_deepen` is the step, `Wiring.isGreatest_foldl_deepen` the run, and
  `isGreatest_depths` says that the depths of a schedule are the lengths of the longest paths.
* `Wiring.IsSchedule.le_length_of_path` — no path is longer than there are nodes.
-/

/-! ### Paths -/

section Paths

variable {α β : Type} {feeds : α → α → Prop} {last : α} {n : Nat}

/-- A path to a node ends there, and each of its nodes feeds the next one. -/
structure IsPathTo (feeds : α → α → Prop) (last : α) (path : List α) : Prop where
  chain : path.IsChain feeds
  ends : path.getLast? = some last

/-- The numbers of nodes on the paths to a node. -/
def pathLengths (feeds : α → α → Prop) (last : α) : Set Nat :=
  {n | ∃ path, IsPathTo feeds last path ∧ path.length = n}

/-- A path that is made one node longer. -/
theorem isPathTo_concat_iff {path : List α} {a : α} :
    IsPathTo feeds last (path ++ [a]) ↔ a = last ∧ (path = [] ∨
      ∃ before, feeds before last ∧ IsPathTo feeds before path) := by
  constructor
  · rintro ⟨hchain, hends⟩
    rw [List.getLast?_concat, Option.some.injEq] at hends
    subst hends
    obtain ⟨hpath, -, hjoin⟩ := List.isChain_append.mp hchain
    refine ⟨rfl, ?_⟩
    -- The path ends with a node alone, or with one behind the end of a shorter path.
    cases hlast : path.getLast? with
    | none => exact .inl (List.getLast?_eq_none_iff.mp hlast)
    | some before => exact .inr ⟨before, hjoin before (by simp [hlast]) a (by simp), hpath, hlast⟩
  · rintro ⟨rfl, rfl | ⟨before, hfeeds, hpath, hends⟩⟩
    · exact ⟨List.isChain_singleton a, rfl⟩
    · refine ⟨List.isChain_append.mpr ⟨hpath, List.isChain_singleton a, ?_⟩, List.getLast?_concat⟩
      simpa [hends] using hfeeds

/-- A path is a node alone, or one node longer than a path to a node that feeds it. -/
theorem mem_pathLengths_iff :
    n ∈ pathLengths feeds last ↔
      n = 1 ∨ ∃ before, feeds before last ∧ ∃ k ∈ pathLengths feeds before, n = k + 1 := by
  constructor
  · rintro ⟨path, hpath, rfl⟩
    rcases List.eq_nil_or_concat path with rfl | ⟨front, a, rfl⟩
    · exact absurd hpath.ends (by simp)
    · rw [List.concat_eq_append] at hpath ⊢
      obtain ⟨-, rfl | ⟨before, hfeeds, hfront⟩⟩ := isPathTo_concat_iff.mp hpath
      · exact .inl rfl
      · exact .inr ⟨before, hfeeds, front.length, ⟨front, hfront, rfl⟩, by simp⟩
  · rintro (rfl | ⟨before, hfeeds, k, ⟨front, hfront, rfl⟩, rfl⟩)
    · exact ⟨[] ++ [last], isPathTo_concat_iff.mpr ⟨rfl, .inl rfl⟩, rfl⟩
    · exact ⟨front ++ [last], isPathTo_concat_iff.mpr ⟨rfl, .inr ⟨before, hfeeds, hfront⟩⟩, by simp⟩

/-- A node alone is a path of length one. -/
theorem one_mem_pathLengths : 1 ∈ pathLengths feeds last := mem_pathLengths_iff.mpr (.inl rfl)

/-- If whatever feeds a node can be found again on the other side, then so can every path to it. -/
theorem pathLengths_subset {feeds' : β → β → Prop} (same : α → β → Prop)
    (h : ∀ a x, same a x → ∀ b, feeds b a → ∃ y, same b y ∧ feeds' y x) {a : α} {x : β}
    (hsame : same a x) : pathLengths feeds a ⊆ pathLengths feeds' x := by
  intro n hn
  induction n generalizing a x with
  | zero =>
    rcases mem_pathLengths_iff.mp hn with hone | ⟨_, _, _, _, hsucc⟩ <;> omega
  | succ n ih =>
    rcases mem_pathLengths_iff.mp hn with hone | ⟨b, hfeeds, k, hk, hsucc⟩
    · rw [hone]
      exact one_mem_pathLengths
    · obtain rfl : n = k := Nat.succ.inj hsucc
      obtain ⟨y, hy, hfeeds'⟩ := h a x hsame b hfeeds
      exact mem_pathLengths_iff.mpr (.inr ⟨y, hfeeds', n, ih hy hk, rfl⟩)

end Paths

namespace Wiring

variable {w : Wiring} {order : List Nat} {node n : Nat}

/-! ### Depths -/

/-- Sets the depth of a node, one more than that of the deepest node that feeds it. -/
def deepen (w : Wiring) (depths : List Nat) (node : Nat) : List Nat :=
  depths.set node (1 + ((w.inputsOf node).map fun i => depths[i]?.getD 0).foldl max 0)

/-- The depths are found in one pass over the order. -/
theorem depths_eq (w : Wiring) (order : List Nat) :
    depths w order = order.foldl w.deepen (List.replicate w.length 0) := rfl

/-- The pass keeps a depth for every node. -/
theorem length_foldl_deepen (ids depths : List Nat) :
    (ids.foldl w.deepen depths).length = depths.length := by
  induction ids generalizing depths with
  | nil => rfl
  | cons id rest ih => rw [List.foldl_cons, ih, deepen, List.length_set]

/-- The longest path to a node is one node longer than the longest of the paths to the nodes that
    feed it. -/
theorem isGreatest_one_add_max {depth : Nat → Nat}
    (h : ∀ i ∈ w.inputsOf node, IsGreatest (pathLengths w.Feeds i) (depth i)) :
    IsGreatest (pathLengths w.Feeds node) (1 + ((w.inputsOf node).map depth).foldl max 0) := by
  obtain ⟨hmem, hle⟩ := List.max?_eq_some_iff.mp
    (@List.max?_cons' _ 0 _ ((w.inputsOf node).map depth))
  constructor
  · -- The maximum is zero for a node without inputs, or the depth of one of them.
    rcases List.mem_cons.mp hmem with hzero | hmem
    · rw [hzero]
      exact one_mem_pathLengths
    · obtain ⟨i, hi, hdepth⟩ := List.mem_map.mp hmem
      rw [← hdepth]
      exact mem_pathLengths_iff.mpr (.inr ⟨i, hi, depth i, (h i hi).1, Nat.add_comm _ _⟩)
  · intro n hn
    rcases mem_pathLengths_iff.mp hn with rfl | ⟨i, hi, k, hk, rfl⟩
    · exact Nat.le_add_right _ _
    · have hdepth : k ≤ depth i := (h i hi).2 hk
      have hbound := hle (depth i) (List.mem_cons_of_mem _ (List.mem_map_of_mem hi))
      omega

/-- **Step.** If the depths of the nodes that feed a node are right, then so is its own. -/
theorem isGreatest_deepen {depths : List Nat} (hnode : node < depths.length)
    (h : ∀ i ∈ w.inputsOf node, IsGreatest (pathLengths w.Feeds i) (depths[i]?.getD 0)) :
    IsGreatest (pathLengths w.Feeds node) ((w.deepen depths node)[node]?.getD 0) := by
  unfold deepen
  rw [List.getElem?_set_self hnode, Option.getD_some]
  exact isGreatest_one_add_max h

/-- **Run.** In the middle of a schedule the depths of all nodes that have had their turn are
    right. -/
theorem isGreatest_foldl_deepen {ids : List Nat} (hordered : w.Ordered ids) (hnodup : ids.Nodup)
    (hlt : ∀ id ∈ ids, id < w.length) (hnode : node ∈ ids) :
    IsGreatest (pathLengths w.Feeds node)
      ((ids.foldl w.deepen (List.replicate w.length 0))[node]?.getD 0) := by
  -- By the nodes that have had their turn; the last one is looked at.
  induction ids using List.reverseRecOn generalizing node with
  | nil => exact absurd hnode List.not_mem_nil
  | append_singleton ids id ih =>
    obtain ⟨hordered, hinputs⟩ := forall_split_concat_iff.mp hordered
    have hbefore : ∀ {i : Nat}, i ∈ ids → _ := fun hi =>
      ih hordered hnodup.of_append_left (fun j hj => hlt j (List.mem_append_left _ hj)) hi
    rw [List.foldl_concat]
    by_cases heq : node = id
    · -- It is its turn now, and all nodes that feed it have had theirs.
      subst heq
      refine isGreatest_deepen ?_ fun i hi => hbefore (hinputs i hi)
      rw [length_foldl_deepen, List.length_replicate]
      exact hlt node hnode
    · -- It has had its turn before, and its depth is not touched now.
      have hmem : node ∈ ids := by simpa [heq] using hnode
      unfold deepen
      rw [List.getElem?_set_ne (Ne.symm heq)]
      exact hbefore hmem

/-! ### Paths along a schedule -/

/-- The nodes of a path stand in a schedule one behind the other. -/
theorem IsSchedule.le_idxOf_of_path (h : w.IsSchedule order) (hn : n ∈ pathLengths w.Feeds node) :
    n ≤ order.idxOf node + 1 := by
  induction n generalizing node with
  | zero => exact Nat.zero_le _
  | succ n ih =>
    rcases mem_pathLengths_iff.mp hn with hone | ⟨i, hi, k, hk, hsucc⟩
    · omega
    · obtain rfl : n = k := Nat.succ.inj hsucc
      have hplace := ih hk
      have hlater := h.idxOf_lt hi
      omega

/-- No path has more nodes than there are. -/
theorem IsSchedule.le_length_of_path (h : w.IsSchedule order) (hnode : node < w.length)
    (hn : n ∈ pathLengths w.Feeds node) : n ≤ w.length := by
  have hplace : order.idxOf node < order.length := List.idxOf_lt_length_of_mem (h.mem_iff.mpr hnode)
  have hlength : order.length = w.length := by simpa using h.perm.length_eq
  have := h.le_idxOf_of_path hn
  omega

end Wiring

/-- **The depths of a schedule are the lengths of the longest paths.** -/
theorem isGreatest_depths {w : Wiring} {order : List Nat} (h : w.IsSchedule order) {node : Nat}
    (hnode : node < w.length) :
    IsGreatest (pathLengths w.Feeds node) ((depths w order)[node]?.getD 0) := by
  rw [Wiring.depths_eq]
  exact Wiring.isGreatest_foldl_deepen h.ordered h.nodup (fun _ hid => h.mem_iff.mp hid)
    (h.mem_iff.mpr hnode)

end MeshExpr
