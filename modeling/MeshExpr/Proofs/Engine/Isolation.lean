import MeshExpr.Proofs.Engine.Atomic
import MeshExpr.Proofs.Evaluation.Run

namespace MeshExpr

open Collective

/-!
# Expressions of one cycle do not see each other

On a rank alone the expressions of a cycle can be loaded in any order: each of them has the value
that it has by itself on the history as it was before the cycle, and the history afterwards is the
same.

* `Plan.latest?_of_identifier` — an identifier in a plan has the last value from before the cycle.
* `Engine.executeCycle_eq_ok_iff` — a cycle succeeds with the values that the expressions have by
  themselves, and with no others.
* `Engine.OrderIrrelevant` — what two engines that differ in the order of their expressions have in
  common; `Engine.orderIrrelevant_of_perm` says that they do.
-/

/-! ### Nodes that do not depend on others -/

namespace Plan

variable {p : Plan} {ctx : Context}

/-- A node whose filter computes the same from all values has this value at the end of a run. -/
theorem eq_valueAt_of_mem {ids : List Nat} {values : List Value}
    (h : p.valuesAfter ctx ids = .ok values) {i : Nat} {node : PlannedNode}
    (hnode : p.nodes[i]? = some node) {result : Except EvalError Value}
    (hresult : ∀ before, node.outcome ctx before = result) (hi : i ∈ ids) :
    result = .ok (valueAt values i) := by
  induction ids using List.reverseRecOn generalizing values with
  | nil => exact absurd hi List.not_mem_nil
  | append_singleton ids id ih =>
    cases hlast : p.nodes[id]? with
    | none =>
      have hne : i ≠ id := by
        rintro rfl
        simp [hnode] at hlast
      exact ih (valuesAfter_concat_of_eq_none hlast ▸ h) (by simpa [hne] using hi)
    | some last =>
      obtain ⟨before, value, hbefore, hvalue, rfl⟩ := (valuesAfter_concat_eq_ok_iff hlast).mp h
      by_cases heq : i = id
      · -- The node has run last. It may have run before, with the same outcome.
        subst heq
        obtain rfl : last = node := Option.some.inj (hlast.symm.trans hnode)
        have hlt : i < before.length := by
          rw [length_of_valuesAfter hbefore]
          exact (List.getElem?_eq_some_iff.mp hnode).1
        rw [valueAt_set_self hlt, ← hresult before, hvalue]
      · rw [valueAt_set_of_ne heq]
        exact ih hbefore (by simpa [heq] using hi)

/-- An identifier has the last value of its name in the history that the plan was evaluated
    against. -/
theorem latest?_of_identifier {values : List Value} (h : p.valuesAfter ctx p.order = .ok values)
    {i : Nat} {node : PlannedNode} (hi : i ∈ p.order) (hnode : p.nodes[i]? = some node)
    (hfilter : node.filter = .identifier) {name : String} (hparam : node.param = .name name) :
    ctx.history.latest? name = some (valueAt values i) := by
  have houtcome : ∀ before, node.outcome ctx before = ctx.lookUp name := by
    intro before
    unfold PlannedNode.outcome
    rw [hfilter, hparam]
    rfl
  exact Context.lookUp_eq_ok_iff.mp (eq_valueAt_of_mem h hnode houtcome hi)

/-- The result of a plan by itself, on a rank alone. -/
def Gives (ctx : Context) (p : Plan) (result : String × Value) : Prop :=
  result.1 = p.name ∧ p.evaluateAlone ctx = .ok result.2

/-- An expression gives one value at most. -/
theorem Gives.unique : Relator.RightUnique (Gives ctx) := by
  rintro p ⟨name, value⟩ ⟨name', value'⟩ ⟨hname, hvalue⟩ ⟨hname', hvalue'⟩
  exact Prod.ext (hname.trans hname'.symm) (Except.ok.inj (hvalue.symm.trans hvalue'))

end Plan

namespace Engine

variable {e e' : Engine} {mesh : Option Mesh}

/-! ### A cycle on a rank alone -/

/-- All expressions have a value if each of them gives one, by itself and in the same context. -/
theorem evaluateAll_eq_ok_iff {plans : List Plan} {ctx : Context}
    {results : List (String × Value)} :
    (evaluateAll plans ctx).run.runAlone = .ok results ↔
      List.Forall₂ (Plan.Gives ctx) plans results := by
  unfold evaluateAll
  rw [runAlone_run_mapM, mapM_eq_ok_iff]
  -- A value with its name is there exactly if the value is.
  have hplan : ∀ (p : Plan) (result : String × Value),
      (do return (p.name, ← p.evaluate ctx) : ExceptT Failure Collective _).run.runAlone
        = .ok result
        ↔ p.Gives ctx result := by
    rintro p ⟨name, value⟩
    rw [runAlone_run_bind, bind_eq_ok_iff]
    constructor
    · rintro ⟨value', hvalue, hpair⟩
      obtain ⟨rfl, rfl⟩ := Prod.mk.inj (Except.ok.inj hpair)
      exact ⟨rfl, hvalue⟩
    · rintro ⟨hname, hvalue⟩
      obtain rfl : name = p.name := hname
      exact ⟨value, hvalue, rfl⟩
  simp only [hplan]

/-- A cycle succeeds with the values that the expressions have by themselves. -/
theorem executeCycle_eq_ok_iff (husable : e.poisoned = none) {report : CycleReport}
    {after : Engine} :
    (e.executeCycle mesh).runAlone = (.ok report, after) ↔ e.plans ≠ []
      ∧ List.Forall₂ (Plan.Gives (e.context mesh)) e.plans report.results
      ∧ report.cycle = e.cyclesRun ∧ after = e.finish report.results := by
  unfold executeCycle ensureUsable
  rw [husable]
  dsimp only
  by_cases hplans : e.plans = []
  · simp [hplans, runAlone]
  · rw [if_neg (by simpa using hplans), runAlone_bind, ← evaluateAll_eq_ok_iff]
    obtain ⟨cycle, results'⟩ := report
    -- A report is only made if all expressions have a value.
    cases (evaluateAll e.plans (e.context mesh)).run.runAlone with
    | error failure => simp [runAlone]
    | ok results =>
      simp only [runAlone, pure_eq]
      constructor
      · intro h
        obtain ⟨hreport, rfl⟩ := Prod.mk.inj h
        obtain ⟨rfl, rfl⟩ := CycleReport.mk.inj (Except.ok.inj hreport)
        exact ⟨hplans, rfl, rfl, rfl⟩
      · rintro ⟨-, hresults, rfl, rfl⟩
        obtain rfl := Except.ok.inj hresults
        rfl

/-- A cycle succeeds if each of the expressions has a value by itself. -/
theorem exists_executeCycle_eq_ok_iff (husable : e.poisoned = none) :
    (∃ report after, (e.executeCycle mesh).runAlone = (.ok report, after)) ↔
      e.plans ≠ [] ∧ ∀ p ∈ e.plans, ∃ value, p.evaluateAlone (e.context mesh) = .ok value := by
  simp only [executeCycle_eq_ok_iff husable]
  constructor
  · rintro ⟨report, after, hplans, hresults, -, -⟩
    refine ⟨hplans, fun p hp => ?_⟩
    obtain ⟨result, -, -, hvalue⟩ := exists_of_forall₂ hresults hp
    exact ⟨result.2, hvalue⟩
  · rintro ⟨hplans, hvalues⟩
    -- The value of each expression is a result under the name of the expression.
    have hgives : ∀ p ∈ e.plans, ∃ result, Plan.Gives (e.context mesh) p result := by
      intro p hp
      obtain ⟨value, hvalue⟩ := hvalues p hp
      exact ⟨(p.name, value), rfl, hvalue⟩
    obtain ⟨results, hresults⟩ := exists_forall₂ hgives
    exact ⟨⟨e.cyclesRun, results⟩, _, hplans, hresults, rfl, rfl⟩

/-! ### Two orders -/

/-- Two engines that have not stopped, with the same settings and the same history, have the same
    expressions in another order. How many cycles each of them has run is left open. -/
structure Reordered (e e' : Engine) : Prop where
  usable : e.poisoned = none
  usable' : e'.poisoned = none
  config : e'.config = e.config
  history : e'.history = e.history
  plans : e.plans.Perm e'.plans
  /-- No two expressions have the same name. -/
  names : e.expressionNames.Nodup

namespace Reordered

variable {results results' : List (String × Value)}

/-- The expressions of both engines see the same. -/
theorem context_eq (h : Reordered e e') (mesh : Option Mesh) :
    e'.context mesh = e.context mesh := by
  unfold context
  rw [h.config, h.history]

/-- No two results have the same name, as no two expressions have. -/
theorem nodup_results (h : Reordered e e')
    (hresults : List.Forall₂ (Plan.Gives (e.context mesh)) e.plans results) :
    (results.map (·.1)).Nodup := by
  rw [map_fst_eq_map_name (hresults.imp fun _ _ hresult => hresult.1)]
  exact h.names

/-- The results of the second engine are those of the first one in the order of its expressions. -/
theorem perm_results (h : Reordered e e')
    (hresults : List.Forall₂ (Plan.Gives (e.context mesh)) e.plans results)
    (hresults' : List.Forall₂ (Plan.Gives (e'.context mesh)) e'.plans results') :
    results.Perm results' := by
  rw [h.context_eq mesh] at hresults'
  obtain ⟨sorted, hsorted, hperm⟩ := List.perm_comp_forall₂ h.plans hresults'
  rwa [List.right_unique_forall₂' Plan.Gives.unique hresults hsorted]

/-- The results are appended to logs of different names, so the order in which this is done does
    not show. -/
theorem history_finish_eq (h : Reordered e e') {report report' : CycleReport}
    (hperm : report.results.Perm report'.results) (hnodup : (report.results.map (·.1)).Nodup) :
    (e.finish report.results).history = (e'.finish report'.results).history := by
  have hnodup' : (report'.results.map (·.1)).Nodup := (hperm.map _).nodup_iff.mp hnodup
  have hvalues : History.valuesOf report.results = History.valuesOf report'.results := by
    funext name
    rw [CycleReport.valuesOf_results hnodup, CycleReport.valuesOf_results hnodup',
      CycleReport.get?_eq_of_perm hperm hnodup]
  -- What a log gains is what stands under its name, in one order as in the other.
  have hgains := e.history.gains_foldl_append report.results
  have hgains' := e.history.gains_foldl_append report'.results
  unfold finish
  rw [h.config, h.history]
  dsimp only
  split
  · rw [hvalues] at hgains
    exact hgains.unique hgains'
  · rfl

end Reordered

/-- What two engines that differ in the order of their expressions have in common. -/
structure OrderIrrelevant (e e' : Engine) (mesh : Option Mesh) : Prop where
  /-- A cycle succeeds on both or on none. -/
  succeeds :
    (∃ report after, (e.executeCycle mesh).runAlone = (.ok report, after)) ↔
      ∃ report after, (e'.executeCycle mesh).runAlone = (.ok report, after)
  /-- This is so if there are expressions, and each of them has a value by itself. -/
  succeeds_iff :
    (∃ report after, (e.executeCycle mesh).runAlone = (.ok report, after)) ↔
      e.plans ≠ [] ∧ ∀ p ∈ e.plans, ∃ value, p.evaluateAlone (e.context mesh) = .ok value
  /-- Each expression has the value that it has by itself on the history before the cycle. -/
  values : ∀ report after, (e.executeCycle mesh).runAlone = (.ok report, after) →
    ∀ p ∈ e.plans, ∃ value, p.evaluateAlone (e.context mesh) = .ok value
      ∧ report.get? p.name = some value
  /-- The results are the same in another order. -/
  results : ∀ report after report' after',
    (e.executeCycle mesh).runAlone = (.ok report, after) →
    (e'.executeCycle mesh).runAlone = (.ok report', after') →
      report.results.Perm report'.results ∧ ∀ name, report.get? name = report'.get? name
  /-- The histories are the same afterwards. -/
  histories : ∀ report after report' after',
    (e.executeCycle mesh).runAlone = (.ok report, after) →
    (e'.executeCycle mesh).runAlone = (.ok report', after') → after.history = after'.history
  /-- An identifier in an expression has the last value of its name from before the cycle, also if
      this is the name of an expression. -/
  identifiers : ∀ report after, (e.executeCycle mesh).runAlone = (.ok report, after) →
    ∀ p ∈ e.plans, ∃ values, p.valuesAfter (e.context mesh) p.order = .ok values
      ∧ report.get? p.name = some (Plan.valueAt values p.output)
      ∧ ∀ i node name, i ∈ p.order → p.nodes[i]? = some node → node.filter = .identifier →
        node.param = .name name → e.history.latest? name = some (Plan.valueAt values i)

/-- **The order of the expressions does not matter.** Two engines whose expressions are the same in
    another order run the same cycle on a rank alone, on any mesh or none. -/
theorem orderIrrelevant_of_reordered (h : Reordered e e') (mesh : Option Mesh) :
    OrderIrrelevant e e' mesh := by
  -- In a cycle that succeeds, the value of each expression is found under its name.
  have hvalues : ∀ report after, (e.executeCycle mesh).runAlone = (.ok report, after) →
      ∀ p ∈ e.plans, ∃ value, p.evaluateAlone (e.context mesh) = .ok value
        ∧ report.get? p.name = some value := by
    intro report after hreport p hp
    obtain ⟨-, hresults, -, -⟩ := (executeCycle_eq_ok_iff h.usable).mp hreport
    obtain ⟨result, hmem, hname, hvalue⟩ := exists_of_forall₂ hresults hp
    refine ⟨result.2, hvalue, (CycleReport.get?_eq_some_iff (h.nodup_results hresults)).mpr ?_⟩
    rw [← hname]
    exact hmem
  refine ⟨?_, exists_executeCycle_eq_ok_iff h.usable, hvalues, ?_, ?_, ?_⟩
  · have hnil : e.plans ≠ [] ↔ e'.plans ≠ [] := by
      rw [← List.length_pos_iff, ← List.length_pos_iff, h.plans.length_eq]
    simp only [exists_executeCycle_eq_ok_iff h.usable, exists_executeCycle_eq_ok_iff h.usable',
      h.context_eq mesh, hnil, h.plans.mem_iff]
  · intro report after report' after' hreport hreport'
    obtain ⟨-, hresults, -, -⟩ := (executeCycle_eq_ok_iff h.usable).mp hreport
    obtain ⟨-, hresults', -, -⟩ := (executeCycle_eq_ok_iff h.usable').mp hreport'
    have hperm := h.perm_results hresults hresults'
    exact ⟨hperm, CycleReport.get?_eq_of_perm hperm (h.nodup_results hresults)⟩
  · intro report after report' after' hreport hreport'
    obtain ⟨-, hresults, -, rfl⟩ := (executeCycle_eq_ok_iff h.usable).mp hreport
    obtain ⟨-, hresults', -, rfl⟩ := (executeCycle_eq_ok_iff h.usable').mp hreport'
    exact h.history_finish_eq (h.perm_results hresults hresults') (h.nodup_results hresults)
  · intro report after hreport p hp
    obtain ⟨value, hvalue, hget⟩ := hvalues report after hreport p hp
    -- An expression looks up what was recorded before the cycle, also under the names of those that
    -- are loaded ahead of it.
    obtain ⟨values, hrun, rfl⟩ := Plan.evaluateAlone_eq_ok_iff.mp hvalue
    refine ⟨values, hrun, hget, fun i node name hi hnode hfilter hparam => ?_⟩
    exact Plan.latest?_of_identifier hrun hi hnode hfilter hparam

/-- An expression with one node and no arguments. -/
def leafPlan (name : String) (filter : Filter) (param : Param) : Plan :=
  ⟨name, [⟨0, "leaf", filter, param, []⟩], [0], 0⟩

/-- An engine with an energy, which was 2 in the cycle before and is 3 now, and an expression that
    looks the energy up. -/
def lagging (swapped : Bool) : Engine where
  plans :=
    let energy := leafPlan "energy" .integer (.int 3)
    let lag := leafPlan "lag" .identifier (.name "energy")
    if swapped then [lag, energy] else [energy, lag]
  history := History.empty.append "energy" (.int 2)
  cyclesRun := 1

/-- Whether the energy is looked up before or after it is computed, what is found is the energy of
    the cycle before. -/
theorem orderIrrelevant_lagging : Reordered (lagging false) (lagging true)
    ∧ OrderIrrelevant (lagging false) (lagging true) none
    ∧ ∃ report after, ((lagging true).executeCycle none).runAlone = (.ok report, after)
      ∧ report.results = [("lag", .int 2), ("energy", .int 3)] := by
  have h : Reordered (lagging false) (lagging true) :=
    ⟨rfl, rfl, rfl, rfl, .swap _ _ _, by decide⟩
  exact ⟨h, orderIrrelevant_of_reordered h none, _, _, rfl, rfl⟩

end Engine

end MeshExpr
