import MeshExpr.Proofs.Evaluation.Contribution
import MeshExpr.Proofs.Evaluation.Meaning

namespace MeshExpr

open Collective

/-!
# What an evaluation sends

The nodes of a plan run in the order of execution up to the first one that fails, and what an
evaluation sends is what these nodes send, one after the other. Nothing is sent in between, and
nothing after a failure, whatever the exchanges answer.

* `NodeRun` — a node that has run.
* `Plan.Follows` — nodes that have run one after the other as the plan says.
* `Graph.Layout.exists_follows` — the evaluation is made of such runs.
* `Plan.Traces` and `Graph.exists_traces_of_plan` — what the evaluation sends.
-/

/-- A node that has run. -/
structure NodeRun where
  node : PlannedNode
  /-- The values of the nodes that feed its ports. -/
  inputs : Inputs
  /-- What it has sent, each time with the answer. -/
  exchanges : List (List Float × Answer)
  result : Except EvalError Value

namespace Plan

/-- Nodes that have run one after the other as the plan says. -/
inductive Follows (p : Plan) (ctx : Context) : List NodeRun → Prop where
  | start : Follows p ctx []
  | next {runs : List NodeRun} {run : NodeRun} (before : Follows p ctx runs)
      (succeeded : ∀ earlier ∈ runs, ∃ v, earlier.result = .ok v)
      -- It is the next node in the order of execution.
      (order : p.order[runs.length]? = some run.node.id)
      (node : p.nodes[run.node.id]? = some run.node)
      -- Its arguments are the values of the nodes that feed it.
      (inputs : List.Forall₂ (fun producer value => ∃ earlier ∈ runs,
        earlier.node.id = producer ∧ earlier.result = .ok value) run.node.inputs run.inputs)
      (computed : Runs (run.node.filter.compute ctx run.inputs run.node.param).run run.exchanges
        run.result)
      (contributes : run.node.filter.Contributes ctx run.inputs run.exchanges) :
      Follows p ctx (runs ++ [run])

/-- How an evaluation ends after some nodes have run. -/
inductive Ends (p : Plan) : List NodeRun → Except Failure Value → Prop where
  /-- All nodes have run and have a value. -/
  | ok {runs : List NodeRun} {v : Value} (all : runs.map (·.node.id) = p.order)
      (succeeded : ∀ run ∈ runs, ∃ v, run.result = .ok v)
      (output : ∃ run ∈ runs, run.node.id = p.output ∧ run.result = .ok v) : Ends p runs (.ok v)
  /-- The last one has failed. -/
  | error {runs : List NodeRun} {run : NodeRun} {e : EvalError} (failed : run.result = .error e) :
      Ends p (runs ++ [run]) (.error ⟨p.name, run.node.name, run.node.filter, e⟩)

/-- What an evaluation sends to a partner, made of what the nodes send that have run. -/
structure Traces (p : Plan) (ctx : Context) (partner : Nat → List Float → Answer) (start : Nat)
    (runs : List NodeRun) : Prop where
  follows : p.Follows ctx runs
  ends : p.Ends runs ((p.evaluate ctx).run.runWith partner start).1
  sent : ((p.evaluate ctx).run.runWith partner start).2
    = runs.flatMap fun run => run.exchanges.map Prod.fst
  /-- The answers are those of the partner. -/
  answers : ∀ (k : Nat) sent answer, (runs.flatMap (·.exchanges))[k]? = some (sent, answer) →
    answer = partner (start + k) sent

variable {p : Plan} {ctx : Context} {exchanges : List (List Float × Answer)}

/-- A node runs its filter, and its value is filed. -/
theorem exists_of_runs_runNode {id : Nat} {node : PlannedNode} (hnode : p.nodes[id]? = some node)
    {values : List Value} {result : Except Failure (List Value)}
    (h : Runs (p.runNode ctx values id).run exchanges result) :
    ∃ found, Runs (node.filter.compute ctx (node.inputs.map (valueAt values)) node.param).run
        exchanges found
      ∧ result = match found with
        | .ok value => .ok (values.set id value)
        | .error e => .error ⟨p.name, node.name, node.filter, e⟩ := by
  -- To file a value, or to add the name of the node to an error, sends nothing.
  have hprogram : (p.runNode ctx values id).run = (node.filter.compute ctx
      (node.inputs.map (valueAt values)) node.param).run >>= fun found => .done (match found with
        | .ok value => .ok (values.set id value)
        | .error e => .error ⟨p.name, node.name, node.filter, e⟩) := by
    unfold runNode
    rw [hnode]
    dsimp only
    rw [ExceptT.run_bind, ExceptT.adapt, ExceptT.run_mk, map_eq_pure_bind, bind_assoc]
    refine congrArg _ (funext fun found => ?_)
    cases found <;> rfl
  rw [hprogram] at h
  exact runs_bind_done_iff.mp h

/-- The values of the nodes that have run are filed. -/
structure Filed (p : Plan) (runs : List NodeRun) (values : List Value) : Prop where
  length : values.length = p.nodes.length
  result : ∀ run ∈ runs, run.result = .ok (valueAt values run.node.id)

/-- One more value is filed. -/
theorem Filed.concat {runs : List NodeRun} {values : List Value} (h : p.Filed runs values)
    {id : Nat} (hid : id < p.nodes.length) (hnew : id ∉ runs.map (·.node.id)) {run : NodeRun}
    (hrun : run.node.id = id) {value : Value} (hvalue : run.result = .ok value) :
    p.Filed (runs ++ [run]) (values.set id value) where
  length := by rw [List.length_set, h.length]
  result earlier hearlier := by
    rcases List.mem_append.mp hearlier with hmem | hmem
    · have hne : earlier.node.id ≠ id := fun heq => hnew (heq ▸ List.mem_map_of_mem hmem)
      rw [valueAt_set_of_ne hne]
      exact h.result earlier hmem
    · obtain rfl := List.mem_singleton.mp hmem
      rw [hrun, valueAt_set_self (h.length ▸ hid)]
      exact hvalue

/-- How the nodes of a plan end: all have run and their values are filed, or the last one has
    failed. -/
inductive NodesEnd (p : Plan) : List NodeRun → Except Failure (List Value) → Prop where
  | ok {runs : List NodeRun} {values : List Value} (all : runs.map (·.node.id) = p.order)
      (filed : p.Filed runs values) : NodesEnd p runs (.ok values)
  | error {runs : List NodeRun} {run : NodeRun} {e : EvalError} (failed : run.result = .error e) :
      NodesEnd p (runs ++ [run]) (.error ⟨p.name, run.node.name, run.node.filter, e⟩)

end Plan

namespace Graph.Layout

variable {g : Graph} (l : g.Layout) {ctx : Context} {exchanges : List (List Float × Answer)}

/-- **One step.** The next node in the order of execution takes its arguments from the nodes that
    have run. -/
theorem follows_next {runs : List NodeRun} {values : List Value} (h : l.plan.Follows ctx runs)
    (hfiled : l.plan.Filed runs values) {id : Nat} {rest : List Nat}
    (horder : l.order = runs.map (·.node.id) ++ id :: rest) {node : PlannedNode}
    (hnode : l.plan.nodes[id]? = some node) {found : Except EvalError Value}
    (hruns : Runs (node.filter.compute ctx (node.inputs.map (Plan.valueAt values)) node.param).run
      exchanges found) :
    l.plan.Follows ctx
      (runs ++ [⟨node, node.inputs.map (Plan.valueAt values), exchanges, found⟩]) := by
  have hid : node.id = id := (l.getElem?_plan_nodes.mp hnode).1
  refine .next h (fun earlier hearlier => ⟨_, hfiled.result earlier hearlier⟩) ?_ (hid ▸ hnode) ?_
    hruns (Filter.contributes_of_runs hruns)
  · show l.order[runs.length]? = some node.id
    rw [horder, hid, List.getElem?_append_right (by simp), List.length_map, Nat.sub_self]
    rfl
  · -- Every input of the node has run before it.
    refine List.forall₂_map_right_iff.mpr (List.forall₂_same.mpr fun i hi => ?_)
    obtain ⟨earlier, hearlier, rfl⟩ :=
      List.mem_map.mp (l.mem_of_input l.isSchedule horder hnode hi)
    exact ⟨earlier, hearlier, rfl, hfiled.result earlier hearlier⟩

/-- **The nodes that are left.** They run one after the other, and what they send is what is sent
    from there on. -/
theorem exists_follows {ids : List Nat} {runs : List NodeRun} {values : List Value}
    (h : l.plan.Follows ctx runs) (hfiled : l.plan.Filed runs values)
    (horder : l.order = runs.map (·.node.id) ++ ids) {result : Except Failure (List Value)}
    (hruns : Runs (ids.foldlM (l.plan.runNode ctx) values).run exchanges result) :
    ∃ later, l.plan.Follows ctx (runs ++ later) ∧ l.plan.NodesEnd (runs ++ later) result
      ∧ exchanges = later.flatMap (·.exchanges) := by
  induction ids generalizing runs values exchanges with
  | nil =>
    obtain ⟨rfl, rfl⟩ := runs_done_iff.mp hruns
    rw [List.append_nil] at horder
    refine ⟨[], ?_, ?_, rfl⟩ <;> rw [List.append_nil]
    · exact h
    · exact .ok horder.symm hfiled
  | cons id rest ih =>
    have hid : id ∈ l.order := by rw [horder]; simp
    have hlt := l.lt_length_of_mem l.isSchedule hid
    have hnode := List.getElem?_eq_getElem hlt
    have hposition := (l.getElem?_plan_nodes.mp hnode).1
    rw [List.foldlM_cons] at hruns
    rcases runs_exceptBind_iff.mp hruns with
      ⟨f, hfirst, rfl⟩ | ⟨values', first, later, rfl, hfirst, hrest⟩
    · -- The node fails, and nothing follows it.
      obtain ⟨found, hfound, heq⟩ := Plan.exists_of_runs_runNode hnode hfirst
      cases found with
      | ok value => exact absurd heq (by simp)
      | error e =>
        refine ⟨[_], l.follows_next h hfiled horder hnode hfound, ?_, by simp⟩
        rw [Except.error.inj heq]
        exact .error (show (NodeRun.mk _ _ _ (.error e)).result = .error e from rfl)
    · obtain ⟨found, hfound, heq⟩ := Plan.exists_of_runs_runNode hnode hfirst
      cases found with
      | error e => exact absurd heq (by simp)
      | ok value =>
        -- Its value is filed, and the rest of the nodes takes it up from there.
        obtain rfl := Except.ok.inj heq
        have hnext := l.follows_next h hfiled horder hnode hfound
        have hnew : id ∉ runs.map (·.node.id) := by
          have hnodup := l.isSchedule.nodup
          rw [horder] at hnodup
          exact fun hmem => List.disjoint_of_nodup_append hnodup hmem List.mem_cons_self
        obtain ⟨later', hfollows, hends, rfl⟩ := ih hnext (hfiled.concat hlt hnew hposition rfl)
          (by simp [horder, hposition]) hrest
        rw [List.append_assoc] at hfollows hends
        exact ⟨_ :: later', hfollows, hends, rfl⟩

/-- The evaluation is made of the runs of nodes. -/
theorem exists_follows_of_runs_evaluate {result : Except Failure Value}
    (h : Runs (l.plan.evaluate ctx).run exchanges result) :
    ∃ runs, l.plan.Follows ctx runs ∧ l.plan.Ends runs result
      ∧ exchanges = runs.flatMap (·.exchanges) := by
  have hfiled : l.plan.Filed [] (List.replicate l.plan.nodes.length .empty) :=
    ⟨List.length_replicate, by simp⟩
  rcases runs_exceptBind_iff.mp h with
    ⟨f, hnodes, rfl⟩ | ⟨values, first, later, rfl, hnodes, hvalue⟩
  · obtain ⟨runs, hfollows, hends, rfl⟩ := l.exists_follows .start hfiled rfl hnodes
    cases hends with
    | error failed => exact ⟨_, hfollows, .error failed, rfl⟩
  · -- What is left is to read the value of the output, which sends nothing.
    obtain ⟨runs, hfollows, hends, rfl⟩ := l.exists_follows .start hfiled rfl hnodes
    obtain ⟨rfl, rfl⟩ := runs_done_iff.mp hvalue
    rw [List.append_nil]
    cases hends with
    | ok all filed =>
      obtain ⟨declared, hdeclared, -⟩ := getElem?_names_eq_some_iff.mp l.getElem?_names_output
      have houtput : l.output ∈ l.order := by
        rw [l.isSchedule.mem_iff, l.length_wiring]
        exact (List.getElem?_eq_some_iff.mp hdeclared).1
      obtain ⟨run, hrun, hid⟩ := List.mem_map.mp ((show _ = l.order from all) ▸ houtput)
      refine ⟨_, hfollows, .ok all (fun run hrun => ⟨_, filed.result run hrun⟩) ?_, rfl⟩
      have hvalue := filed.result run hrun
      rw [hid] at hvalue
      exact ⟨run, hrun, hid, hvalue⟩

end Graph.Layout

/-- **What an evaluation sends is up to its nodes.** Whatever the exchanges answer, the evaluation
    of a plan sends what its nodes send one after the other, in the order of execution and up to the
    first one that fails. -/
theorem Graph.exists_traces_of_plan {g : Graph} {p : Plan} {m : Manifest}
    (h : g.plan = .ok (p, m)) (ctx : Context) (partner : Nat → List Float → Answer) (start : Nat) :
    ∃ runs, p.Traces ctx partner start runs := by
  obtain ⟨l, hl⟩ := plan_eq_ok_iff.mp h
  obtain ⟨rfl, rfl⟩ := Prod.mk.inj hl
  obtain ⟨exchanges, hruns, hsent, hanswers⟩ := exists_runs (l.plan.evaluate ctx).run partner start
  obtain ⟨runs, hfollows, hends, rfl⟩ := l.exists_follows_of_runs_evaluate hruns
  exact ⟨runs, hfollows, hends, by rw [← hsent, List.map_flatMap], hanswers⟩

/-- A partner that fails in its first exchange with the histogram of `spectrum`. -/
theorem Graph.exists_traces_of_spectrum :
    spectrum.plan = .ok (spectrumPlan, ⟨3, 4, 1, 2⟩)
      ∧ ∃ runs,
        spectrumPlan.Traces { mesh := Mesh.twoRanks.head? }
          (fun _ _ => .error (.communication (.failed "lost"))) 0 runs :=
  ⟨plan_spectrum, exists_traces_of_plan plan_spectrum _ _ 0⟩

end MeshExpr
