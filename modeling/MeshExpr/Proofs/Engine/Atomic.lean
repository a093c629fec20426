import MeshExpr.Proofs.Collective.Partner
import MeshExpr.Proofs.History.Growth

namespace MeshExpr

open Collective

/-!
# All or nothing

An operation of the engine does everything that it is there for, or it is refused and the engine
stays as it was. For a cycle this holds whatever the exchanges answer, and wherever it fails: in
front of the first expression, at an expression behind others that already have a value, or at an
exchange in the middle of a filter.

* `Engine.CycleEnds` — the four ways in which a cycle ends; `Engine.cycleEnds` says that there are
  no others.
* `Engine.Completed` — what a cycle that succeeds has done; `Engine.Aborted` — what one that does
  not has left alone, and `Engine.Obstacle` what stood in its way.
* `Engine.allOrNothing` — all operations in every state.
-/

/-! ### Operations that are refused -/

/-- An operation that is refused leaves the engine as it was. -/
def Outcome.KeepsOnError {α : Type} (e : Engine) (outcome : Outcome α) : Prop :=
  ∀ error, outcome.1 = .error error → outcome.2 = e

/-- An operation has been done, or it has been refused for a reason that is no failure of an
    expression, and then the engine is as it was. -/
inductive Outcome.DoneOrRefused {α : Type} (e : Engine) (Done : α → Engine → Prop) :
    Outcome α → Prop where
  | done {a : α} {e' : Engine} (h : Done a e') : DoneOrRefused e Done (.ok a, e')
  | refused {error : EngineError} (h : ∀ failure, error ≠ .eval failure) :
      DoneOrRefused e Done (.error error, e)

/-- An operation that is done or refused changes nothing if it is refused. -/
theorem Outcome.DoneOrRefused.keepsOnError {α : Type} {e : Engine} {Done : α → Engine → Prop}
    {outcome : Outcome α} (h : outcome.DoneOrRefused e Done) : outcome.KeepsOnError e := by
  intro error herror
  cases h with
  | done hdone => exact absurd herror (by simp)
  | refused hreason => rfl

/-! ### What a report says of a name -/

namespace CycleReport

/-- If names are distinct, there is at most one value under a name. -/
theorem valuesOf_results {r : CycleReport} (h : (r.results.map (·.1)).Nodup) (name : String) :
    History.valuesOf r.results name = (r.get? name).toList := by
  unfold get?
  induction hresults : r.results generalizing r with
  | nil => rfl
  | cons result rest ih =>
    rw [hresults, List.map_cons, List.nodup_cons] at h
    rw [History.valuesOf_cons, List.find?_cons, ih (r := ⟨r.cycle, rest⟩) h.2 rfl]
    by_cases heq : result.1 = name
    · -- No other result bears the name.
      have hrest : rest.find? (·.1 == name) = none := by
        refine List.find?_eq_none.mpr fun other hother => ?_
        have hne : other.1 ≠ name := fun hsame =>
          h.1 (heq.trans hsame.symm ▸ List.mem_map_of_mem hother)
        simpa using hne
      simp [heq, hrest]
    · simp [heq, beq_false_of_ne heq]

/-- With distinct names, a report finds exactly its results. -/
theorem get?_eq_some_iff {r : CycleReport} (h : (r.results.map (·.1)).Nodup) {name : String}
    {value : Value} : r.get? name = some value ↔ (name, value) ∈ r.results := by
  rw [← Option.mem_toList, ← valuesOf_results h]
  unfold History.valuesOf
  rw [List.mem_map]
  constructor
  · rintro ⟨⟨other, value⟩, hfound, rfl⟩
    obtain ⟨hmem, hname⟩ := List.mem_filter.mp hfound
    obtain rfl : other = name := by simpa using hname
    exact hmem
  · intro hmem
    exact ⟨(name, value), List.mem_filter.mpr ⟨hmem, by simp⟩, rfl⟩

/-- So the order of its results does not matter for what it says of a name. -/
theorem get?_eq_of_perm {r r' : CycleReport} (hperm : r.results.Perm r'.results)
    (h : (r.results.map (·.1)).Nodup) (name : String) : r.get? name = r'.get? name := by
  have h' : (r'.results.map (·.1)).Nodup := (hperm.map _).nodup_iff.mp h
  apply Option.ext
  intro value
  rw [get?_eq_some_iff h, get?_eq_some_iff h', hperm.mem_iff]

end CycleReport

namespace Engine

variable {e e' : Engine} {mesh : Option Mesh} {partner : Nat → List Float → Answer} {start : Nat}

/-! ### All expressions of a cycle -/

/-- Results that stand for expressions one by one have the names of the expressions. -/
theorem map_fst_eq_map_name {plans : List Plan} {results : List (String × Value)}
    (h : List.Forall₂ (fun plan result => result.1 = plan.name) plans results) :
    results.map (·.1) = plans.map (·.name) := by
  have hsame : List.Forall₂ Eq (results.map (·.1)) (plans.map (·.name)) := by
    rw [List.forall₂_map_left_iff, List.forall₂_map_right_iff]
    exact h.flip
  rw [List.forall₂_eq_eq_eq] at hsame
  exact hsame

/-- If all expressions have a value, their names and values stand in the order of the
    expressions. -/
theorem forall₂_of_evaluateAll_eq_ok {plans : List Plan} {ctx : Context}
    {results : List (String × Value)}
    (h : ((evaluateAll plans ctx).run.runWith partner start).1 = .ok results) :
    List.Forall₂ (fun (plan : Plan) result => result.1 = plan.name
      ∧ ∃ n, ((plan.evaluate ctx).run.runWith partner n).1 = .ok result.2) plans results := by
  refine (forall₂_of_runWith_mapM_eq_ok h).imp ?_
  rintro plan result ⟨n, hresult⟩
  obtain ⟨value, n', hvalue, hpair⟩ := exists_of_runWith_bind_eq_ok hresult
  obtain rfl := Except.ok.inj hpair
  exact ⟨rfl, n, hvalue⟩

/-- If one of them fails, those before it have a value. -/
theorem exists_of_evaluateAll_eq_error {plans : List Plan} {ctx : Context} {failure : Failure}
    (h : ((evaluateAll plans ctx).run.runWith partner start).1 = .error failure) :
    ∃ before plan after, plans = before ++ plan :: after
      ∧ (∀ p ∈ before, ∃ value n, ((p.evaluate ctx).run.runWith partner n).1 = .ok value)
      ∧ ∃ n, ((plan.evaluate ctx).run.runWith partner n).1 = .error failure := by
  obtain ⟨before, plan, after, rfl, hbefore, n, hfails⟩ := exists_of_runWith_mapM_eq_error h
  refine ⟨before, plan, after, rfl, fun p hp => ?_, n, ?_⟩
  · obtain ⟨result, n', hresult⟩ := hbefore p hp
    obtain ⟨value, -, hvalue, -⟩ := exists_of_runWith_bind_eq_ok hresult
    exact ⟨value, n', hvalue⟩
  · -- Naming a value cannot fail, so it was the expression that did.
    rcases cases_of_runWith_bind_eq_error hfails with hfails | ⟨value, n', -, hpair⟩
    · exact hfails
    · exact absurd hpair (by simp [runWith, ExceptT.run_pure])

/-! ### How a cycle ends -/

/-- The outcomes that a cycle can have against a partner. -/
inductive CycleEnds (e : Engine) (mesh : Option Mesh) (partner : Nat → List Float → Answer)
    (start : Nat) : Outcome CycleReport → Prop where
  /-- The engine has stopped. -/
  | refused {reason : String} (hpoisoned : e.poisoned = some reason) :
      CycleEnds e mesh partner start (.error (.poisoned reason), e)
  /-- There are no expressions. -/
  | notLoaded (hpoisoned : e.poisoned = none) (hplans : e.plans = []) :
      CycleEnds e mesh partner start (.error .notLoaded, e)
  /-- All expressions have a value. -/
  | completed (hpoisoned : e.poisoned = none) (hplans : e.plans ≠ [])
      {results : List (String × Value)}
      (hresults : ((evaluateAll e.plans (e.context mesh)).run.runWith partner start).1
        = .ok results) :
      CycleEnds e mesh partner start (.ok ⟨e.cyclesRun, results⟩, e.finish results)
  /-- An expression has failed. -/
  | failed (hpoisoned : e.poisoned = none) {failure : Failure}
      (hfails : ((evaluateAll e.plans (e.context mesh)).run.runWith partner start).1
        = .error failure) :
      CycleEnds e mesh partner start (.error (.eval failure), e.fail failure)

/-- A cycle ends in one of these ways, whatever the mesh and the partner are. -/
theorem cycleEnds (e : Engine) (mesh : Option Mesh) (partner : Nat → List Float → Answer)
    (start : Nat) :
    CycleEnds e mesh partner start ((e.executeCycle mesh).runWith partner start).1 := by
  unfold executeCycle ensureUsable
  cases hpoisoned : e.poisoned with
  | some reason => exact .refused hpoisoned
  | none =>
    dsimp only
    -- The branches of a cycle, one way to end for each.
    by_cases hplans : e.plans = []
    · rw [if_pos (by simpa using hplans)]
      exact .notLoaded hpoisoned hplans
    · rw [if_neg (by simpa using hplans), runWith_bind]
      cases hrun : ((evaluateAll e.plans (e.context mesh)).run.runWith partner start).1 with
      | ok results =>
        dsimp only
        rw [hrun]
        exact .completed hpoisoned hplans hrun
      | error failure =>
        dsimp only
        rw [hrun]
        exact .failed hpoisoned hrun

/-- A cycle against a partner has succeeded: all expressions have a value, and nothing has changed
    but the history and the number of cycles. -/
structure Completed (e : Engine) (mesh : Option Mesh) (partner : Nat → List Float → Answer)
    (report : CycleReport) (e' : Engine) : Prop where
  /-- The engine has not stopped, neither before nor after the cycle. -/
  usable : e.poisoned = none ∧ e'.poisoned = none
  loaded : e.plans ≠ []
  /-- Cycles are numbered by those that have succeeded before. -/
  cycle : report.cycle = e.cyclesRun
  /-- There is one result for each expression, its value, in the order in which they were loaded. -/
  results : List.Forall₂ (fun (plan : Plan) result => result.1 = plan.name
    ∧ ∃ n, ((plan.evaluate (e.context mesh)).run.runWith partner n).1 = .ok result.2)
    e.plans report.results
  cyclesRun : e'.cyclesRun = e.cyclesRun + 1
  /-- If results are recorded, then exactly these, each at the end of the log of its name. -/
  recorded : e.config.recordHistory = true →
    e.history.Gains e'.history (History.valuesOf report.results)
  unrecorded : e.config.recordHistory = false → e'.history = e.history
  config : e'.config = e.config
  plans : e'.plans = e.plans

/-- The names of the results of a cycle are those of the expressions. -/
theorem Completed.names {report : CycleReport} (h : e.Completed mesh partner report e') :
    report.results.map (·.1) = e.expressionNames :=
  map_fst_eq_map_name (h.results.imp fun _ _ hresult => hresult.1)

/-- What has kept a cycle against a partner from being completed. -/
inductive Obstacle (e : Engine) (mesh : Option Mesh) (partner : Nat → List Float → Answer) :
    EngineError → Prop where
  /-- The engine had stopped before. -/
  | stopped {reason : String} (hpoisoned : e.poisoned = some reason) :
      Obstacle e mesh partner (.poisoned reason)
  | notLoaded (hpoisoned : e.poisoned = none) (hplans : e.plans = []) :
      Obstacle e mesh partner .notLoaded
  /-- An expression has failed. Those before it have a value, which is lost. -/
  | failed (hpoisoned : e.poisoned = none) {before after : List Plan} {plan : Plan}
      (hplans : e.plans = before ++ plan :: after)
      (hbefore : ∀ p ∈ before, ∃ value n,
        ((p.evaluate (e.context mesh)).run.runWith partner n).1 = .ok value)
      {failure : Failure} {n : Nat}
      (hfails : ((plan.evaluate (e.context mesh)).run.runWith partner n).1 = .error failure) :
      Obstacle e mesh partner (.eval failure)

/-- A cycle against a partner has not succeeded: nothing has changed, except that the engine has
    stopped for good if an expression has failed and this is what failures do. -/
structure Aborted (e : Engine) (mesh : Option Mesh) (partner : Nat → List Float → Answer)
    (error : EngineError) (e' : Engine) : Prop where
  history : e'.history = e.history
  plans : e'.plans = e.plans
  config : e'.config = e.config
  cyclesRun : e'.cyclesRun = e.cyclesRun
  poisoned : e'.poisoned = match error, e.config.failurePolicy with
    | .eval failure, .fatal => some failure.message
    | _, _ => e.poisoned
  /-- The error says what stood in the way. -/
  obstacle : e.Obstacle mesh partner error

/-- A cycle in which all expressions have a value is completed. -/
theorem completed_finish (hpoisoned : e.poisoned = none) (hplans : e.plans ≠ [])
    {results : List (String × Value)}
    (hresults : ((evaluateAll e.plans (e.context mesh)).run.runWith partner start).1
      = .ok results) :
    e.Completed mesh partner ⟨e.cyclesRun, results⟩ (e.finish results) where
  usable := ⟨hpoisoned, hpoisoned⟩
  loaded := hplans
  cycle := rfl
  results := forall₂_of_evaluateAll_eq_ok hresults
  cyclesRun := rfl
  -- The results are appended one by one, each to the log of its name.
  recorded := fun hrecord => by
    simpa [finish, hrecord] using e.history.gains_foldl_append results
  unrecorded := fun hrecord => by simp [finish, hrecord]
  config := rfl
  plans := rfl

/-- A cycle in which an expression fails is aborted at that expression. -/
theorem aborted_fail (hpoisoned : e.poisoned = none) {failure : Failure}
    (hfails : ((evaluateAll e.plans (e.context mesh)).run.runWith partner start).1
      = .error failure) :
    e.Aborted mesh partner (.eval failure) (e.fail failure) := by
  obtain ⟨before, plan, after, hplans, hbefore, n, hfails⟩ := exists_of_evaluateAll_eq_error hfails
  have hobstacle : e.Obstacle mesh partner (.eval failure) :=
    .failed hpoisoned hplans hbefore hfails
  unfold fail
  cases hpolicy : e.config.failurePolicy with
  | fatal => exact ⟨rfl, rfl, rfl, rfl, by simp [hpolicy], hobstacle⟩
  | forward => exact ⟨rfl, rfl, rfl, rfl, by simp [hpolicy], hobstacle⟩

/-- A cycle that is refused has not run at all. -/
theorem aborted_self {error : EngineError} (h : ∀ failure, error ≠ .eval failure)
    (hobstacle : e.Obstacle mesh partner error) : e.Aborted mesh partner error e where
  history := rfl
  plans := rfl
  config := rfl
  cyclesRun := rfl
  poisoned := by
    split
    · exact absurd rfl (h _)
    · rfl
  obstacle := hobstacle

/-- However a cycle ends, it has either done everything or nothing. -/
theorem CycleEnds.spec {outcome : Outcome CycleReport} :
    CycleEnds e mesh partner start outcome →
      match outcome with
      | (.ok report, e') => e.Completed mesh partner report e'
      | (.error error, e') => e.Aborted mesh partner error e' := by
  intro h
  cases h with
  | refused hpoisoned => exact aborted_self (by simp) (.stopped hpoisoned)
  | notLoaded hpoisoned hplans => exact aborted_self (by simp) (.notLoaded hpoisoned hplans)
  | completed hpoisoned hplans hresults => exact completed_finish hpoisoned hplans hresults
  | failed hpoisoned hfails => exact aborted_fail hpoisoned hfails

/-! ### The other operations -/

/-- An expression is loaded behind the others. -/
theorem load_spec (e : Engine) (plan : Plan) :
    (e.load plan).DoneOrRefused e fun _ e' =>
      plan.name ∉ e.expressionNames ∧ e' = { e with plans := e.plans ++ [plan] } := by
  unfold load ensureUsable
  cases e.poisoned with
  | some reason => exact .refused (by simp)
  | none =>
    dsimp only
    by_cases hloaded : e.expressionNames.contains plan.name
    · rw [if_pos hloaded]
      exact .refused (by simp)
    · rw [if_neg hloaded]
      exact .done ⟨by simpa using hloaded, rfl⟩

/-- A graph is loaded as its plan. -/
theorem loadGraph_spec (e : Engine) (g : Graph) :
    (e.loadGraph g).DoneOrRefused e fun manifest e' => ∃ plan, g.plan = .ok (plan, manifest)
      ∧ plan.name ∉ e.expressionNames ∧ e' = { e with plans := e.plans ++ [plan] } := by
  unfold loadGraph
  rcases g.plan with error | ⟨plan, manifest⟩
  · exact .refused (by simp)
  · dsimp only
    have hload := e.load_spec plan
    generalize e.load plan = outcome at hload
    cases hload with
    | done hdone => exact .done ⟨plan, rfl, hdone⟩
    | refused hreason => exact .refused hreason

/-- A value is recorded, or the call is refused. -/
theorem record_spec (e : Engine) (name : String) (value : Value) :
    (e.record name value).DoneOrRefused e fun _ e' =>
      e' = { e with history := e.history.append name value } := by
  unfold record ensureUsable
  cases e.poisoned with
  | some reason => exact .refused (by simp)
  | none => exact .done rfl

/-! ### The main result -/

/-- **All or nothing.** In every state of the engine, on every mesh and whatever the exchanges
    answer, a cycle has either done everything that it is there for, or nothing but stop the engine
    after a failure. The other operations change nothing when they are refused. -/
theorem allOrNothing (e : Engine) :
    (∀ mesh partner start,
      match ((e.executeCycle mesh).runWith partner start).1 with
      | (.ok report, e') => e.Completed mesh partner report e'
      | (.error error, e') => e.Aborted mesh partner error e')
    ∧ (∀ plan, (e.load plan).KeepsOnError e)
    ∧ (∀ g, (e.loadGraph g).KeepsOnError e)
    ∧ (∀ name value, (e.record name value).KeepsOnError e) := by
  refine ⟨?_, ?_, ?_, ?_⟩
  · exact fun mesh partner start => (e.cycleEnds mesh partner start).spec
  · exact fun plan => (e.load_spec plan).keepsOnError
  · exact fun g => (e.loadGraph_spec g).keepsOnError
  · exact fun name value => (e.record_spec name value).keepsOnError

end Engine

end MeshExpr
