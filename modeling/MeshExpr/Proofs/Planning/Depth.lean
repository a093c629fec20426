import MeshExpr.Proofs.Planning.Image
import MeshExpr.Proofs.Planning.WellFormed
import MeshExpr.Proofs.Schedule.Depth

namespace MeshExpr.Graph

open Relation

/-!
# The depth of a plan

A manifest counts the nodes on the longest path to the output. The paths of a plan join positions;
those of its graph join names. Both have the same lengths, so the depth can be told from the edges
that lead up to the output, and nothing else in a graph has a say in it.

* `Layout.isGreatest_depth` — the depth is the greatest length of a path of positions.
* `Wired.pathLengths_eq` — the paths of names are as long as those of positions.
* `pathLengths_eq_of_upstream` — edges from which no path leads to a node do not matter to it.
* `isGreatest_depth_of_plan` — all of this about the plan of a graph.
-/

variable {g : Graph}

/-- The output of a graph is one of its nodes. -/
theorem Layout.output_lt (l : g.Layout) : l.output < l.wiring.length := by
  rw [l.length_wiring, ← length_names]
  exact (List.getElem?_eq_some_iff.mp l.getElem?_names_output).1

/-- The depth is the length of the longest path of positions. -/
theorem Layout.isGreatest_depth (l : g.Layout) :
    IsGreatest (pathLengths l.wiring.Feeds l.output) l.manifest.depth :=
  isGreatest_depths l.isSchedule l.output_lt

/-- The paths to a name are as long as the paths to the place of the name. -/
theorem Wired.pathLengths_eq (l : g.Wired) {node : Nat} {name : String}
    (hname : g.names[node]? = some name) :
    pathLengths g.Feeds name = pathLengths l.wiring.Feeds node := by
  apply Set.Subset.antisymm
  · refine pathLengths_subset (fun name i => g.names[i]? = some name) ?_ hname
    intro consumer node hnode producer hfeeds
    obtain ⟨i, node', hi, hnode', hfeeds⟩ := l.feeds_iff.mp hfeeds
    obtain rfl := place_unique l.names_nodup hnode hnode'
    exact ⟨i, hi, hfeeds⟩
  · refine pathLengths_subset (fun i name => g.names[i]? = some name) ?_ hname
    intro node consumer hnode i hfeeds
    obtain ⟨e, he, hsource, htarget⟩ := l.exists_edge hfeeds
    exact ⟨e.source, hsource, e, he, rfl, Option.some.inj (htarget.symm.trans hnode)⟩

/-- Two graphs in which the same edges lead up to a node have the same paths to it. -/
theorem pathLengths_eq_of_upstream {g' : Graph} {name : String}
    (h : ∀ producer consumer, ReflTransGen g.Feeds consumer name →
      (g'.Feeds producer consumer ↔ g.Feeds producer consumer)) :
    pathLengths g'.Feeds name = pathLengths g.Feeds name := by
  -- Going up from the node, one never leaves the part on which the graphs agree.
  apply Set.Subset.antisymm
  · refine pathLengths_subset (fun a b => a = b ∧ ReflTransGen g.Feeds b name) ?_
      ⟨rfl, .refl⟩
    rintro consumer _ ⟨rfl, hpath⟩ producer hfeeds
    have hfeeds := (h producer consumer hpath).mp hfeeds
    exact ⟨producer, ⟨rfl, .head hfeeds hpath⟩, hfeeds⟩
  · refine pathLengths_subset (fun a b => a = b ∧ ReflTransGen g.Feeds a name) ?_
      ⟨rfl, .refl⟩
    rintro consumer _ ⟨rfl, hpath⟩ producer hfeeds
    exact ⟨producer, ⟨rfl, .head hfeeds hpath⟩, (h producer consumer hpath).mpr hfeeds⟩

/-- The depth is the length of the longest path of names. -/
theorem Layout.isGreatest_depth_names (l : g.Layout) :
    IsGreatest (pathLengths g.Feeds g.output) l.manifest.depth := by
  rw [l.pathLengths_eq l.getElem?_names_output]
  exact l.isGreatest_depth

/-- **The depth is the number of nodes on the longest path to the output.** There is at least one
    node on it, and there are no more than the plan has. A graph in which the same edges lead up to
    the same output has the same depth, whatever else there is in it. -/
theorem isGreatest_depth_of_plan {p : Plan} {m : Manifest} (h : g.plan = .ok (p, m)) :
    IsGreatest (pathLengths p.wiring.Feeds p.output) m.depth
      ∧ 1 ≤ m.depth ∧ m.depth ≤ p.nodes.length
      ∧ ∀ (g' : Graph) (p' : Plan) (m' : Manifest), g'.plan = .ok (p', m') →
        g'.output = g.output →
        (∀ producer consumer, ReflTransGen g.Feeds consumer g.output →
          (g'.Feeds producer consumer ↔ g.Feeds producer consumer)) → m'.depth = m.depth := by
  obtain ⟨l, hl⟩ := plan_eq_ok_iff.mp h
  obtain ⟨rfl, rfl⟩ := Prod.mk.inj hl
  have hgreatest := l.isGreatest_depth
  refine ⟨l.plan_wiring ▸ hgreatest, hgreatest.2 one_mem_pathLengths, ?_, ?_⟩
  · rw [l.length_plan_nodes, ← l.length_wiring]
    exact l.isSchedule.le_length_of_path l.output_lt hgreatest.1
  · intro g' p' m' h' houtput hupstream
    -- The paths to the output are made of names, which both graphs join in the same way.
    obtain ⟨l', hl'⟩ := plan_eq_ok_iff.mp h'
    obtain ⟨rfl, rfl⟩ := Prod.mk.inj hl'
    have hgreatest' := l'.isGreatest_depth_names
    rw [houtput, pathLengths_eq_of_upstream hupstream] at hgreatest'
    exact hgreatest'.unique l.isGreatest_depth_names

/-- A number that reaches a sum directly and through a minimum. Nothing needs the two lengths that
    are computed from the sum. -/
def detour : Graph where
  name := "detour"
  nodes := [⟨"sum", "expr_binary_op", Named.ofList [("op_string", .string "+")]⟩,
    ⟨"one", "expr_integer", Named.ofList [("value", .int 1)]⟩, ⟨"low", "scalar_min", ∅⟩,
    ⟨"length", "magnitude", ∅⟩, ⟨"again", "magnitude", ∅⟩]
  edges := [⟨"one", "sum", "lhs"⟩, ⟨"low", "sum", "rhs"⟩, ⟨"one", "low", "arg1"⟩,
    ⟨"one", "low", "arg2"⟩, ⟨"sum", "length", "arg1"⟩, ⟨"length", "again", "arg1"⟩]
  output := "sum"

/-- The plan of `detour`. -/
def detourPlan : Plan where
  name := "detour"
  nodes := [⟨0, "sum", .binaryOp, .op .add, [1, 2]⟩, ⟨1, "one", .integer, .int 1, []⟩,
    ⟨2, "low", .scalarMin, .nothing, [1, 1]⟩, ⟨3, "length", .magnitude, .nothing, [0]⟩,
    ⟨4, "again", .magnitude, .nothing, [3]⟩]
  order := [1, 2, 0, 3, 4]
  output := 0

/-- The planner finds the longer way. -/
theorem plan_detour : detour.plan = .ok (detourPlan, ⟨5, 6, 0, 3⟩) := by rfl

/-- The depth of `detour` is that of its longer way. -/
theorem isGreatest_depth_of_detour :
    detour.plan = .ok (detourPlan, ⟨5, 6, 0, 3⟩)
      ∧ IsGreatest (pathLengths detourPlan.wiring.Feeds 0) 3 :=
  ⟨plan_detour, (isGreatest_depth_of_plan plan_detour).1⟩

end MeshExpr.Graph
