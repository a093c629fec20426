import MeshExpr.Proofs.Planning.WellFormed
import MeshExpr.Proofs.Schedule.Stuck

namespace MeshExpr.Graph

open Relation

/-!
# The report of a cycle

If the nodes of a graph cannot be ordered, the error names the nodes that no order can have: those
that lie on a cycle, and those that depend on a cycle through any chain of producers. They stand in
the report as they are declared.

* `Wired.entangled_iff` — a name is entangled among the names exactly if its place is among the
  places.
* `Wired.orderOf_eq_error_iff` — when ordering fails, and what it reports then.
-/

variable {g : Graph}

/-- An entangled name is that of a node. -/
theorem Wired.mem_names_of_entangled (l : g.Wired) {name : String} (h : Entangled g.Feeds name) :
    name ∈ g.names := by
  obtain ⟨producer, hfeeds, -⟩ := h.exists_feeds
  obtain ⟨-, node, -, hnode, -⟩ := l.feeds_iff.mp hfeeds
  exact List.mem_of_getElem? hnode

/-- A name is entangled in the edges exactly if its place is in the wires. -/
theorem Wired.entangled_iff (l : g.Wired) {node : Nat} {name : String}
    (hname : g.names[node]? = some name) :
    Entangled l.wiring.Feeds node ↔ Entangled g.Feeds name := by
  obtain ⟨hlt, rfl⟩ := List.getElem?_eq_some_iff.mp hname
  constructor <;> intro h
  · simpa [hname] using h.lift (g.names[·]?.getD "") fun _ _ => l.feeds_getD
  · simpa [l.names_nodup.idxOf_getElem] using h.lift g.names.idxOf fun _ _ => l.feeds_idxOf

/-- A list is what stands at its places. -/
private theorem filterMap_range_getElem? {α : Type} (l : List α) :
    (List.range l.length).filterMap (l[·]?) = l := by
  induction l with
  | nil => rfl
  | cons a rest ih => simpa [List.range_succ_eq_map, List.filterMap_map, Function.comp_def] using ih

open scoped Classical in
/-- The names of the entangled places are the entangled names. -/
theorem Wired.filterMap_entangled (l : g.Wired) :
    ((List.range l.wiring.length).filter fun node => Entangled l.wiring.Feeds node).filterMap
        (fun id => g.nodes[id]?.map (·.name))
      = g.names.filter fun name => Entangled g.Feeds name := by
  -- Both lists go over the places in order.
  conv_rhs => rw [← filterMap_range_getElem? g.names]
  rw [List.filterMap_filter, List.filter_filterMap, l.length_wiring, length_names]
  refine List.filterMap_congr fun node hnode => ?_
  rw [List.mem_range, ← length_names] at hnode
  have hname := List.getElem?_eq_getElem hnode
  have hnode : g.nodes[node]?.map (·.name) = some g.names[node] := by
    rw [← List.getElem?_map]
    exact hname
  simp only [l.entangled_iff hname, hname, hnode, Option.filter_some, decide_eq_true_eq]

open scoped Classical in
/-- **Sixth phase.** The nodes of a graph cannot be ordered exactly if its names have a cycle, and
    the names that are entangled in cycles are reported then. -/
theorem Wired.orderOf_eq_error_iff (l : g.Wired) {e : GraphError} :
    g.orderOf l.wiring = .error e ↔ (∃ name, TransGen g.Feeds name name)
      ∧ e = .cyclicGraph (g.names.filter fun name => Entangled g.Feeds name) := by
  have hcyclic : ¬ l.wiring.Acyclic ↔ ∃ name, TransGen g.Feeds name name := by
    rw [l.acyclic_iff]
    push Not
    rfl
  rw [← l.filterMap_entangled, ← hcyclic]
  unfold orderOf
  -- The scheduler succeeds exactly if there is no cycle, and otherwise it is left with what is
  -- entangled.
  cases horder : schedule l.wiring with
  | ok order =>
    have hacyclic := (schedule_isOk_iff l.closed).mp ⟨order, horder⟩
    simp [hacyclic]
  | error stuck =>
    obtain ⟨hcycle, rfl⟩ := (schedule_eq_error_iff l.closed).mp horder
    simp [hcycle, eq_comm]

end MeshExpr.Graph
