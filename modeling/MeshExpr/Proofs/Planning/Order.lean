import MeshExpr.Proofs.Planning.WellFormed
import MeshExpr.Proofs.Schedule.Least

namespace MeshExpr.Graph

/-!
# The order of a plan

Which orders of its nodes a graph admits can be said by the places at which they are declared and
the edges between them. The plan takes the least of these orders, compared as a sequence of places.

* `IsSchedule` — the orders that a graph admits, and `Layout.isSchedule_iff`: they are the schedules
  of the wiring.
* `isLeast_order_of_plan` — the order of a plan is the least of them.
-/

/-- Whether an edge joins the nodes that are declared at two places. -/
def Joins (g : Graph) (source target : Nat) : Prop :=
  ∃ e ∈ g.edges, g.names[source]? = some e.source ∧ g.names[target]? = some e.target

/-- The list has the place of every node once, and the place where an edge begins before the one
    where it ends. -/
structure IsSchedule (g : Graph) (order : List Nat) : Prop where
  perm : order.Perm (List.range g.nodes.length)
  joined : ∀ source target, g.Joins source target → order.idxOf source < order.idxOf target

variable {g : Graph}

namespace Layout

/-- An edge joins two places exactly if one of them feeds the other. -/
theorem joins_iff (l : g.Layout) {source target : Nat} :
    g.Joins source target ↔ l.wiring.Feeds source target := by
  constructor
  · rintro ⟨e, he, hsource, htarget⟩
    obtain ⟨i, node, hi, hnode, hfeeds⟩ := l.feeds_iff.mp ⟨e, he, rfl, rfl⟩
    -- No two nodes have one name, so these are the same places.
    rwa [place_unique l.names_nodup hsource hi, place_unique l.names_nodup htarget hnode]
  · exact l.exists_edge

/-- The orders that a graph admits are the schedules of its wiring. -/
theorem isSchedule_iff (l : g.Layout) {order : List Nat} :
    g.IsSchedule order ↔ l.wiring.IsSchedule order := by
  rw [Wiring.isSchedule_iff_idxOf, l.length_wiring]
  simp only [← l.joins_iff]
  exact ⟨fun h => ⟨h.perm, h.joined⟩, fun h => ⟨h.1, h.2⟩⟩

/-- The order of a layout is the least of all schedules, read by position. -/
theorem isLeast_order (l : g.Layout) : IsLeast {order | g.IsSchedule order} l.order := by
  simp only [l.isSchedule_iff]
  exact isLeast_of_schedule (orderOf_eq_ok_iff.mp l.order_eq)

end Layout

/-- **The order of a plan is the least of all that its graph admits.** So it is the order in which
    the nodes are declared if this one is admitted, and it is the same for all graphs that have as
    many nodes, joined at the same places. -/
theorem isLeast_order_of_plan {p : Plan} {m : Manifest} (h : g.plan = .ok (p, m)) :
    IsLeast {order | g.IsSchedule order} p.order
      ∧ (g.IsSchedule (List.range g.nodes.length) → p.order = List.range g.nodes.length)
      ∧ ∀ (g' : Graph) (p' : Plan) (m' : Manifest), g'.plan = .ok (p', m') →
        g'.nodes.length = g.nodes.length →
        (∀ source target, g'.Joins source target ↔ g.Joins source target) → p'.order = p.order := by
  obtain ⟨l, hl⟩ := plan_eq_ok_iff.mp h
  obtain ⟨rfl, rfl⟩ := Prod.mk.inj hl
  have hleast : IsLeast {order | g.IsSchedule order} l.plan.order := l.isLeast_order
  refine ⟨hleast, fun hdeclared => ?_, fun g' p' m' h' hlength hjoins => ?_⟩
  · -- No order of the same nodes is below the increasing one.
    have hle := le_of_perm_of_pairwise List.pairwise_lt_range hleast.1.perm
    exact le_antisymm (hleast.2 hdeclared) hle
  · obtain ⟨l', hl'⟩ := plan_eq_ok_iff.mp h'
    obtain ⟨rfl, rfl⟩ := Prod.mk.inj hl'
    -- Both graphs admit the same orders, so that the least of them is the same.
    have hsame : {order | g'.IsSchedule order} = {order | g.IsSchedule order} := by
      ext order
      constructor <;> rintro ⟨hperm, hjoined⟩
      · exact ⟨hlength ▸ hperm, fun i j hij => hjoined i j ((hjoins i j).mpr hij)⟩
      · exact ⟨hlength ▸ hperm, fun i j hij => hjoined i j ((hjoins i j).mp hij)⟩
    exact (hsame ▸ l'.isLeast_order).unique hleast

/-- A length that is declared before its argument, and behind both of them a number that nothing
    needs. The number could run at once, but the length is lower. -/
def belated : Graph where
  name := "belated"
  nodes := [⟨"length", "magnitude", ∅⟩, ⟨"one", "expr_integer", Named.ofList [("value", .int 1)]⟩,
    ⟨"two", "expr_integer", Named.ofList [("value", .int 2)]⟩]
  edges := [⟨"one", "length", "arg1"⟩]
  output := "two"

/-- The plan of `belated`. -/
def belatedPlan : Plan where
  name := "belated"
  nodes := [⟨0, "length", .magnitude, .nothing, [1]⟩, ⟨1, "one", .integer, .int 1, []⟩,
    ⟨2, "two", .integer, .int 2, []⟩]
  order := [1, 0, 2]
  output := 2

/-- The planner takes the producer before the node that was declared ahead of it. -/
theorem plan_belated : belated.plan = .ok (belatedPlan, ⟨3, 1, 0, 1⟩) := by rfl

/-- The order of `belated` is the least one, and not the order of declaration. -/
theorem isLeast_order_of_belated :
    belated.plan = .ok (belatedPlan, ⟨3, 1, 0, 1⟩)
      ∧ IsLeast {order | belated.IsSchedule order} [1, 0, 2] :=
  ⟨plan_belated, (isLeast_order_of_plan plan_belated).1⟩

end MeshExpr.Graph
