import MeshExpr.Proofs.Planning.Rejection

namespace MeshExpr

/-!
# The report of rejected parameters

The parameters of the nodes can also be checked by a loop that goes from node to node with one list
for messages: the list is emptied in front of a node, filled by the check of this node, and carried
over to a report. Parameters that are rejected without a message would get one of the loop's own.
The loop finds what planning finds, and its own message is never needed.

* `Review` and `Review.visit` — the state of the loop and one pass of it.
* `Review.visit_eq` and `review_eq` — what one pass adds, and what the whole loop finds.
* `Graph.params_eq_ok_iff_review` and `Graph.map_note_of_plan` — this is what planning finds.
* `Graph.rejected_of_plan` — which error a graph without a plan gets, and what its report says.
-/

/-- A message about a node. -/
structure Note where
  node : String
  filter : Filter
  message : String
deriving DecidableEq

/-- What is noted about a violation. -/
def NodeViolation.note (v : NodeViolation) : Note := ⟨v.node, v.filter, v.violation.message⟩

/-- The state of the loop. -/
structure Review where
  /-- The parameters of the nodes that passed. -/
  params : List Param
  report : List Note
  /-- The list for the messages about one node. -/
  buffer : List String

namespace Review

/-- The message about parameters that are rejected without one. -/
def unexplained : String := "parameters rejected"

/-- Checks one more node. -/
def visit (r : Review) (declared : Node × Filter) : Review :=
  let note (message : String) : Note := ⟨declared.1.name, declared.2, message⟩
  let cleared := { r with buffer := [] }
  match declared.2.paramSpec.validate declared.1.params cleared.buffer with
  | (some param, []) => { cleared with params := r.params ++ [param] }
  | (none, []) => { cleared with report := r.report ++ [note unexplained] }
  | (_, messages) => { cleared with report := r.report ++ messages.map note }

/-- A pass adds the parameter of the node or all that is wrong with it, and leaves no message in the
    list. -/
theorem visit_eq (r : Review) (declared : Node × Filter) :
    r.visit declared =
      { params := r.params ++ (declared.2.paramSpec.check declared.1.params).toOption.toList
        report := r.report ++ (Graph.nodeViolations declared.1 declared.2).map (·.note)
        buffer := [] } := by
  unfold visit
  dsimp only
  rw [ParamSpec.validate_eq, List.nil_append]
  cases hviolations : declared.2.paramSpec.violations declared.1.params with
  | nil =>
    -- If nothing is wrong, there is a parameter.
    have hparam : (declared.2.paramSpec.check declared.1.params).toOption ≠ none := fun h =>
      ParamSpec.toOption_check_eq_none_iff.mp h hviolations
    obtain ⟨param, hparam⟩ := Option.ne_none_iff_exists'.mp hparam
    simp [Graph.nodeViolations, hviolations, hparam]
  | cons violation rest =>
    have hparam : (declared.2.paramSpec.check declared.1.params).toOption = none :=
      ParamSpec.toOption_check_eq_none_iff.mpr (by simp [hviolations])
    simp [Graph.nodeViolations, hviolations, hparam, NodeViolation.note]

end Review

/-- Checks all nodes, one after the other. -/
def review (declared : List (Node × Filter)) : Review := declared.foldl Review.visit ⟨[], [], []⟩

/-- The loop has found the parameters of the nodes that have them, and all that is wrong with the
    others. -/
theorem review_eq (declared : List (Node × Filter)) :
    review declared =
      { params := declared.filterMap fun d => (d.2.paramSpec.check d.1.params).toOption
        report := (declared.flatMap fun d => Graph.nodeViolations d.1 d.2).map (·.note)
        buffer := [] } := by
  -- The last node is visited with what the loop has found before.
  induction declared using List.reverseRecOn with
  | nil => rfl
  | append_singleton declared last ih =>
    unfold review at ih ⊢
    rw [List.foldl_append, ih, List.foldl_cons, List.foldl_nil, Review.visit_eq]
    cases hparam : (last.2.paramSpec.check last.1.params).toOption <;> simp [hparam]

/-- No violation has the text that the loop keeps for rejections without one. -/
theorem Violation.message_ne_unexplained (v : Violation) : v.message ≠ Review.unexplained := by
  -- The texts differ within their first ten characters.
  have hstart : v.message.toList.take 10 ≠ Review.unexplained.toList.take 10 := by
    cases v <;>
      (change List.take 10 (String.toList (_ ++ _)) ≠ _; simp [toString, Review.unexplained])
  exact fun h => hstart (by rw [h])

namespace Graph

variable {g : Graph}

/-- The loop passes the same graphs as planning, with the same parameters. -/
theorem params_eq_ok_iff_review {filters : List Filter} (h : g.filters = .ok filters)
    {params : List Param} : g.params filters = .ok params ↔
      (review g.declared).report = [] ∧ (review g.declared).params = params := by
  rw [review_eq, declared_eq h]
  unfold Graph.params
  dsimp only
  split
  · rename_i hnone
    simp [hnone]
  · rename_i violations hsome
    refine ⟨nofun, fun hreport => absurd ?_ hsome⟩
    exact List.map_eq_nil_iff.mp hreport.1

/-- The report of the loop has the messages that the check gives for each node alone. -/
theorem report_review (declared : List (Node × Filter)) :
    (review declared).report = declared.flatMap fun d =>
      (d.2.paramSpec.validate d.1.params []).2.map fun message => ⟨d.1.name, d.2, message⟩ := by
  rw [review_eq]
  simp [List.map_flatMap, nodeViolations, ParamSpec.validate_eq, NodeViolation.note,
    Function.comp_def]

/-- Nothing in the report of the loop is its own message. -/
theorem message_ne_unexplained {declared : List (Node × Filter)} {note : Note}
    (h : note ∈ (review declared).report) : note.message ≠ Review.unexplained := by
  rw [review_eq] at h
  obtain ⟨v, -, rfl⟩ := List.mem_map.mp h
  exact v.violation.message_ne_unexplained

/-- If parameters are rejected, what is reported is the report of the loop. -/
theorem map_note_of_plan {violations : List NodeViolation}
    (h : g.plan = .error (.invalidParams violations)) :
    violations.map (·.note) = (review g.declared).report := by
  obtain ⟨fault, hmem, h⟩ := (plan_eq_error_iff.mp h).exists_mem
  -- Only the check of the parameters has an error of this kind.
  simp only [checks, List.cons_append, List.nil_append, List.mem_cons, List.not_mem_nil,
    or_false] at hmem
  rcases hmem with rfl | rfl | rfl | rfl | rfl | rfl | rfl
  · exact absurd h.2 (by simp)
  · obtain ⟨before, node, -, -, h, -⟩ := h
    simp [nodeFaults, FirstOf] at h
  · rw [review_eq, GraphError.invalidParams.inj h.2]
  · exact absurd h.2 (by simp)
  · obtain ⟨before, edge, -, -, h, -⟩ := h
    simp [edgeFaults, FirstOf] at h
  · obtain ⟨-, declared, -, -, ⟨-, port, -, -, h, -⟩, -⟩ := h
    exact absurd h.2 (by simp)
  · exact absurd h.2 (by simp)

/-- **The error of a graph that is rejected is the first fault that is found in it.** If this is the
    parameters of its nodes, the report is made of the messages about each node, in the order of the
    nodes, and each of them was given by the check of the node. -/
theorem rejected_of_plan (g : Graph) :
    (∀ e, g.plan = .error e ↔ g.Rejected e)
      ∧ (∀ violations, g.plan = .error (.invalidParams violations) →
        violations.map (·.note) = (review g.declared).report)
      ∧ (review g.declared).report = (g.declared.flatMap fun d =>
        (d.2.paramSpec.validate d.1.params []).2.map fun message => ⟨d.1.name, d.2, message⟩)
      ∧ ∀ note ∈ (review g.declared).report, note.message ≠ Review.unexplained :=
  ⟨fun _ => plan_eq_error_iff, fun _ => map_note_of_plan, report_review _,
    fun _ => message_ne_unexplained⟩

/-- A graph with wrong parameters at two of three nodes, with edges from nowhere and to no port, and
    with an output that is not a node. -/
def botched : Graph where
  name := "botched"
  nodes := [⟨"one", "expr_integer", Named.ofList [("extra", .int 1)]⟩, ⟨"two", "null_arg", ∅⟩,
    ⟨"length", "magnitude", Named.ofList [("value", .int 2)]⟩]
  edges := [⟨"three", "length", "arg1"⟩, ⟨"one", "length", "arg2"⟩]
  output := "four"

/-- Only the faults of parameters are reported, since they come first. -/
theorem plan_botched : botched.plan = .error (.invalidParams
    [⟨"one", .integer, .unexpected "extra"⟩, ⟨"one", .integer, .missingNumber "value"⟩,
      ⟨"length", .magnitude, .unexpected "value"⟩]) := by rfl

/-- The graph `botched` is rejected for its parameters, in the order of its nodes. -/
theorem rejected_of_botched :
    botched.Rejected (.invalidParams
        [⟨"one", .integer, .unexpected "extra"⟩, ⟨"one", .integer, .missingNumber "value"⟩,
          ⟨"length", .magnitude, .unexpected "value"⟩])
      ∧ (review botched.declared).report =
        [⟨"one", .integer, "unexpected parameter 'extra'"⟩,
          ⟨"one", .integer, "missing required numeric parameter 'value'"⟩,
          ⟨"length", .magnitude, "unexpected parameter 'value'"⟩] := by
  obtain ⟨hfault, hreport, -⟩ := rejected_of_plan botched
  exact ⟨(hfault _).mp plan_botched, (hreport _ plan_botched).symm⟩

end Graph

end MeshExpr
