import MeshExpr.Proofs.Schedule.Order

namespace MeshExpr

open Relation

/-!
# The nodes that a schedule leaves out

A scheduler that stops early leaves out the nodes of every cycle, and with them all nodes that
depend on these. It leaves out no other node: the rest could have been scheduled without them.

* `Entangled` — what it is to lie on a cycle or to depend on one, for any relation of feeding.
* `Wiring.Ordered.not_entangled` — no node that has run is entangled: it would have waited for
  another one.
* `Scheduler.entangled_of_not_mem` — when no node is ready, all nodes that have not run are: were
  some of them not, one of these would have been fed by none of the others.
* `Scheduler.Sound.stuck_eq` — so these are the nodes that still wait.
* `schedule_eq_error_iff` — the scheduler fails exactly on wirings with a cycle, and reports exactly
  the entangled nodes.
-/

/-! ### Cycles and what depends on them -/

section Entangled

variable {α β : Type} {feeds : α → α → Prop} {a b : α}

/-- The node lies on a cycle, or depends on one that does through any chain of nodes. -/
def Entangled (feeds : α → α → Prop) (node : α) : Prop :=
  ∃ knot, TransGen feeds knot knot ∧ ReflTransGen feeds knot node

/-- A node on a cycle is entangled. -/
theorem entangled_of_cycle (h : TransGen feeds a a) : Entangled feeds a := ⟨a, h, .refl⟩

/-- So is every node behind one that is. -/
theorem Entangled.of_path (h : Entangled feeds a) (hpath : ReflTransGen feeds a b) :
    Entangled feeds b := by
  obtain ⟨knot, hcycle, hknot⟩ := h
  exact ⟨knot, hcycle, hknot.trans hpath⟩

/-- An entangled node is fed by an entangled one. -/
theorem Entangled.exists_feeds (h : Entangled feeds a) :
    ∃ before, feeds before a ∧ Entangled feeds before := by
  obtain ⟨knot, hcycle, hpath⟩ := h
  -- Whether it is on the cycle itself or behind it, there is a last step that leads to it.
  have hlast : TransGen feeds knot a := hcycle.trans_left hpath
  obtain ⟨before, hbefore, hfeeds⟩ := TransGen.tail'_iff.mp hlast
  exact ⟨before, hfeeds, knot, hcycle, hbefore⟩

/-- Entangled nodes stay entangled in another relation that has all the steps of the first one. -/
theorem Entangled.lift {feeds' : β → β → Prop} (f : α → β)
    (hf : ∀ a b, feeds a b → feeds' (f a) (f b)) (h : Entangled feeds a) :
    Entangled feeds' (f a) := by
  obtain ⟨knot, hcycle, hpath⟩ := h
  exact ⟨f knot, hcycle.lift f hf, hpath.lift f hf⟩

end Entangled

/-- No node that has run is entangled. -/
theorem Wiring.Ordered.not_entangled {w : Wiring} {order : List Nat} (h : w.Ordered order)
    {node : Nat} (hnode : node ∈ order) : ¬ Entangled w.Feeds node := by
  -- The first entangled node in the order would come after an entangled node that feeds it.
  induction order using List.reverseRecOn generalizing node with
  | nil => exact absurd hnode List.not_mem_nil
  | append_singleton order last ih =>
    obtain ⟨hbefore, hinputs⟩ := forall_split_concat_iff.mp h
    intro hentangled
    obtain ⟨i, hfeeds, hi⟩ := hentangled.exists_feeds
    rcases List.mem_append.mp hnode with hnode | hnode
    · exact ih hbefore hnode hentangled
    · obtain rfl := List.mem_singleton.mp hnode
      exact ih hbefore (hinputs i hfeeds) hi

namespace Scheduler

variable {w : Wiring} {s : Scheduler} {node : Nat}

/-- When no node is ready, every node that has not run is entangled. -/
theorem entangled_of_not_mem (hw : w.Closed) (h : s.Sound w) (hready : s.ready = [])
    (hlt : node < w.length) (hnode : node ∉ s.order) : Entangled w.Feeds node := by
  by_contra hfree
  -- Of the nodes that have not run and are not entangled, one is fed by none of them.
  obtain ⟨source, hsource, ⟨hwaits, huntied⟩, hfed⟩ := Wiring.exists_source
    (fun i => i ∉ s.order ∧ ¬ Entangled w.Feeds i)
    (fun i hi hcycle => hi.2 (entangled_of_cycle hcycle)) ⟨node, hlt, hnode, hfree⟩
  have hmem : source ∈ s.ready := by
    refine (h.mem_ready source).mpr ⟨hsource, hwaits, fun i hi => ?_⟩
    by_contra hrun
    apply hfed i (hw.lt_of_feeds hi) hi
    exact ⟨hrun, fun hentangled => huntied (hentangled.of_path (.single hi))⟩
  rw [hready] at hmem
  exact List.not_mem_nil hmem

/-- When no node is ready, exactly the entangled nodes wait for a node that has not run. -/
theorem Sound.waits_iff_entangled (hw : w.Closed) (h : s.Sound w) (hready : s.ready = [])
    (hlt : node < w.length) :
    (∃ i ∈ w.inputsOf node, i ∉ s.order) ↔ Entangled w.Feeds node := by
  constructor
  · rintro ⟨i, hi, hwaits⟩
    apply entangled_of_not_mem hw h hready hlt
    exact fun hrun => hwaits (h.ordered.mem_of_feeds hrun hi)
  · intro hentangled
    obtain ⟨i, hfeeds, hi⟩ := hentangled.exists_feeds
    exact ⟨i, hfeeds, fun hrun => h.ordered.not_entangled hrun hi⟩

open scoped Classical in
/-- When no node is ready, the nodes that still wait are the entangled ones. -/
theorem Sound.stuck_eq (hw : w.Closed) (h : s.Sound w) (hready : s.ready = []) :
    s.stuck = (List.range w.length).filter fun node => Entangled w.Feeds node := by
  have hlength : s.pending.length = w.length := by rw [h.pending_eq, List.length_map]
  unfold stuck
  rw [hlength]
  refine List.filter_congr fun node hnode => ?_
  have hlt : node < w.length := List.mem_range.mp hnode
  rw [h.getElem?_pending hlt, Bool.eq_iff_iff, decide_eq_true_iff,
    ← h.waits_iff_entangled hw hready hlt]
  simp

end Scheduler

open Scheduler

open scoped Classical in
/-- **The scheduler fails exactly on wirings with a cycle,** and reports the entangled nodes in the
    order of their numbers. -/
theorem schedule_eq_error_iff {w : Wiring} (hw : w.Closed) {stuck : List Nat} :
    schedule w = .error stuck ↔ ¬ w.Acyclic ∧
      stuck = (List.range w.length).filter fun node => Entangled w.Feeds node := by
  rw [← schedule_isOk_iff hw, ← (sound_run w w.length).stuck_eq hw (ready_run w)]
  unfold schedule
  dsimp only
  split <;> simp [eq_comm]

end MeshExpr
