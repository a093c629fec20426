import MeshExpr.Proofs.Engine.Log

namespace MeshExpr.Engine

/-!
# An engine that has stopped

Where failures stop the engine, the first one does so for good: every later call is refused, and
nothing about the engine changes any more.

* `Engine.Frozen` — what an engine that has stopped for a reason does;
  `Engine.frozen_of_poisoned` says that it is enough to have a reason.
* `Engine.Call.refusal` — what such an engine answers to each call.
* `Engine.stopped_of_call` and `Engine.CallEnds.usable` — how one call stops an engine, or leaves it
  usable.
* `Engine.poisoned_of_mem_run` and `Engine.usable_run` — the same for runs.
* `Engine.Halted` and `Engine.frozen_of_run` — a failure in a run, with all that is called before it
  and after it.
* `Engine.Refused` and `Engine.refused_of_run` — the answers to all that is called after it.
-/

variable {e e' : Engine} {reply : Reply} {reason : String}

/-! ### One call after another -/

/-- An engine has stopped for good. -/
structure Frozen (e : Engine) (reason : String) : Prop where
  poisoned : e.poisoned = some reason
  load : ∀ plan, e.load plan = (.error (.poisoned reason), e)
  record : ∀ name value, e.record name value = (.error (.poisoned reason), e)
  /-- A cycle is refused before anything is exchanged. -/
  executeCycle : ∀ mesh, e.executeCycle mesh = .done (.error (.poisoned reason), e)
  /-- A graph is planned first, so one that has no plan is refused for this. -/
  loadGraph : ∀ g, e.loadGraph g = (.error (match g.plan with
    | .error error => .graph error
    | .ok _ => .poisoned reason), e)
  refused : ∀ c, ∃ error, (∀ failure, error ≠ .eval failure) ∧ e.call c = (.error error, e)
  /-- However many calls there are, each of them is answered as if it were the only one, and the
      engine stays as it is. -/
  run : ∀ calls, e.run calls = (calls.map fun c => (e.call c).1, e)

/-- A stopped engine is not usable, and says why. -/
theorem ensureUsable_of_poisoned (h : e.poisoned = some reason) :
    e.ensureUsable = .error (.poisoned reason) := by
  unfold ensureUsable
  rw [h]

/-- A stopped engine loads nothing. -/
theorem load_of_poisoned (h : e.poisoned = some reason) (plan : Plan) :
    e.load plan = (.error (.poisoned reason), e) := by
  unfold load
  rw [ensureUsable_of_poisoned h]

/-- It loads no graph either. But the graph is planned first, so that one which cannot be planned is
    refused for that. -/
theorem loadGraph_of_poisoned (h : e.poisoned = some reason) (g : Graph) :
    e.loadGraph g = (.error (match g.plan with
      | .error error => .graph error
      | .ok _ => .poisoned reason), e) := by
  unfold loadGraph
  rcases g.plan with error | ⟨plan, manifest⟩
  · rfl
  · dsimp only
    rw [load_of_poisoned h]

/-- A stopped engine records nothing. -/
theorem record_of_poisoned (h : e.poisoned = some reason) (name : String) (value : Value) :
    e.record name value = (.error (.poisoned reason), e) := by
  unfold record
  rw [ensureUsable_of_poisoned h]

/-- A stopped engine runs no cycle, and exchanges nothing. -/
theorem executeCycle_of_poisoned (h : e.poisoned = some reason) (mesh : Option Mesh) :
    e.executeCycle mesh = .done (.error (.poisoned reason), e) := by
  unfold executeCycle
  rw [ensureUsable_of_poisoned h]

/-- What is wrong with the graph of a call, if it is to load a graph that has no plan. -/
def Call.graphError? : Call → Option GraphError
  | .loadGraph g => match g.plan with
    | .error error => some error
    | .ok _ => none
  | _ => none

/-- Why a call is refused by an engine that has stopped for a reason. -/
def Call.refusal (c : Call) (reason : String) : EngineError :=
  match c.graphError? with
  | some error => .graph error
  | none => .poisoned reason

/-- A call is refused because the engine has stopped, as long as its graph can be planned. -/
theorem Call.refusal_eq_poisoned {c : Call} (h : c.graphError? = none) (reason : String) :
    c.refusal reason = .poisoned reason := by
  unfold refusal
  rw [h]

/-- A call with a graph that cannot be planned is refused for the graph. -/
theorem Call.refusal_eq_graph {c : Call} {error : GraphError} (h : c.graphError? = some error)
    (reason : String) : c.refusal reason = .graph error := by
  unfold refusal
  rw [h]

/-- No refusal is the failure of an expression. -/
theorem Call.refusal_ne_eval (c : Call) (reason : String) (failure : Failure) :
    c.refusal reason ≠ .eval failure := by
  unfold refusal
  split <;> simp

/-- **One call** of an engine that has stopped. -/
theorem call_eq_of_poisoned (h : e.poisoned = some reason) (c : Call) :
    e.call c = (.error (c.refusal reason), e) := by
  unfold call Call.refusal Call.graphError?
  cases c with
  | load plan =>
    dsimp only
    rw [load_of_poisoned h]
    rfl
  | loadGraph g =>
    dsimp only
    rw [loadGraph_of_poisoned h]
    -- The graph is planned all the same, and may be refused for its own sake.
    cases g.plan <;> rfl
  | record name value =>
    dsimp only
    rw [record_of_poisoned h]
    rfl
  | executeCycle mesh partner =>
    dsimp only
    rw [executeCycle_of_poisoned h]
    rfl

/-- Whatever is called of a stopped engine, it is refused and nothing changes. -/
theorem call_of_poisoned (h : e.poisoned = some reason) (c : Call) :
    ∃ error, (∀ failure, error ≠ .eval failure) ∧ e.call c = (.error error, e) :=
  ⟨c.refusal reason, c.refusal_ne_eval reason, call_eq_of_poisoned h c⟩

/-- **Any number of calls** of an engine that has stopped. -/
theorem run_of_poisoned (h : e.poisoned = some reason) (calls : List Call) :
    e.run calls = (calls.map fun c => (e.call c).1, e) := by
  induction calls with
  | nil => rfl
  | cons c cs ih =>
    obtain ⟨error, -, hcall⟩ := call_of_poisoned h c
    unfold run
    rw [hcall]
    dsimp only
    rw [ih, List.map_cons, hcall]

/-- A stopped engine is frozen, by what each call does to it. -/
theorem frozen_of_poisoned (h : e.poisoned = some reason) : e.Frozen reason where
  poisoned := h
  load := load_of_poisoned h
  record := record_of_poisoned h
  executeCycle := executeCycle_of_poisoned h
  loadGraph := loadGraph_of_poisoned h
  refused := call_of_poisoned h
  run := run_of_poisoned h

/-! ### How a call ends -/

/-- No call changes the configuration. -/
theorem CallEnds.config_eq (h : CallEnds e (reply, e')) : e'.config = e.config := by
  cases h with
  | loaded _ => rfl
  | recorded _ _ => rfl
  | completed hcompleted => exact hcompleted.config
  | aborted haborted => exact haborted.config
  | refused _ => rfl

/-- Where failures are handed on, a call leaves an engine usable. -/
theorem CallEnds.usable (h : CallEnds e (reply, e')) (hpolicy : e.config.failurePolicy = .forward)
    (husable : e.poisoned = none) : e'.poisoned = none := by
  cases h with
  | loaded _ => exact husable
  | recorded _ _ => exact husable
  | completed hcompleted => exact hcompleted.usable.2
  | @aborted _ _ error _ haborted =>
    have hpoisoned := haborted.poisoned
    rw [hpolicy] at hpoisoned
    rw [hpoisoned]
    cases error <;> exact husable
  | refused _ => exact husable

/-- Where failures stop the engine, a call that fails does this and nothing else. -/
theorem stopped_of_call {c : Call} {failure : Failure} (hpolicy : e.config.failurePolicy = .fatal)
    (hfails : (e.call c).1 = .error (.eval failure)) :
    e.poisoned = none ∧ (e.call c).2 = { e with poisoned := some failure.message } := by
  have hends := e.callEnds c
  generalize e.call c = outcome at hends hfails
  -- Of all ways to end, only a cycle that is aborted fails.
  cases hends with
  | loaded _ => exact absurd hfails (by simp)
  | recorded _ _ => exact absurd hfails (by simp)
  | completed _ => exact absurd hfails (by simp)
  | refused hreason => exact absurd (Except.error.inj hfails) (hreason failure)
  | @aborted _ _ error e' haborted =>
    obtain rfl : error = .eval failure := Except.error.inj hfails
    obtain ⟨hhistory, hplans, hconfig, hcyclesRun, hpoisoned, hobstacle⟩ := haborted
    rw [hpolicy] at hpoisoned
    cases hobstacle with
    | failed husable =>
      -- Nothing but the reason has changed, field by field.
      refine ⟨husable, ?_⟩
      cases e'
      simp only at hhistory hplans hconfig hcyclesRun hpoisoned
      rw [hhistory, hplans, hconfig, hcyclesRun, hpoisoned]

/-! ### What stops an engine -/

/-- The first call of a run, and the rest. -/
theorem run_cons (e : Engine) (c : Call) (later : List Call) :
    e.run (c :: later) = ((e.call c).1 :: ((e.call c).2.run later).1, ((e.call c).2.run later).2) :=
  rfl

/-- A run can be cut in two anywhere. -/
theorem run_append (e : Engine) (calls later : List Call) :
    e.run (calls ++ later) = ((e.run calls).1 ++ ((e.run calls).2.run later).1,
      ((e.run calls).2.run later).2) := by
  induction calls generalizing e with
  | nil => rfl
  | cons c cs ih =>
    rw [List.cons_append, run_cons, ih, run_cons]
    rfl

/-- No run changes the configuration. -/
theorem config_run (e : Engine) (calls : List Call) : (e.run calls).2.config = e.config := by
  induction calls generalizing e with
  | nil => rfl
  | cons c cs ih => exact (ih _).trans (e.callEnds c).config_eq

/-- **Where failures are handed on**, no run stops the engine. -/
theorem usable_run (hpolicy : e.config.failurePolicy = .forward) (husable : e.poisoned = none)
    (calls : List Call) : (e.run calls).2.poisoned = none := by
  induction calls generalizing e with
  | nil => exact husable
  | cons c cs ih =>
    have hcall := e.callEnds c
    exact ih (hcall.config_eq ▸ hpolicy) (hcall.usable hpolicy husable)

/-- **Where failures stop the engine**, it has stopped after a run in which there was one. -/
theorem poisoned_of_mem_run {failure : Failure} {calls : List Call}
    (hpolicy : e.config.failurePolicy = .fatal)
    (hfailure : .error (.eval failure) ∈ (e.run calls).1) :
    (e.run calls).2.poisoned = some failure.message := by
  induction calls generalizing e with
  | nil => exact absurd hfailure List.not_mem_nil
  | cons c cs ih =>
    rcases List.mem_cons.mp hfailure with hfailure | hfailure
    · have hstopped := (stopped_of_call hpolicy hfailure.symm).2
      rw [run_cons, hstopped, run_of_poisoned rfl]
    · exact ih ((e.callEnds c).config_eq ▸ hpolicy) hfailure

/-! ### The main result -/

/-- A call has stopped an engine, after some calls and before others. -/
structure Halted (start : Engine) (before later : List Call) (c : Call) (failure : Failure)
    (stopped : Engine) : Prop where
  /-- The engine is as it was before the call, but for the reason that it has now. -/
  state : stopped = { (start.run before).2 with poisoned := some failure.message }
  /-- It had not stopped before. -/
  usable : (start.run before).2.poisoned = none
  frozen : stopped.Frozen failure.message
  /-- All later calls are refused, one by one, and at the end of the run the engine is as it was
      after the failure. -/
  run : start.run (before ++ c :: later) = ((start.run before).1 ++ .error (.eval failure)
    :: later.map fun d => (stopped.call d).1, stopped)
  /-- There is one failure in the run. -/
  only : ∀ other, .error (.eval other) ∈ (start.run (before ++ c :: later)).1 → other = failure

/-- If failures are fatal, then a call that fails halts the engine, with whatever is called before
    and later. -/
theorem halted_of_call {start : Engine} {before later : List Call} {c : Call} {failure : Failure}
    (hpolicy : start.config.failurePolicy = .fatal)
    (hfails : ((start.run before).2.call c).1 = .error (.eval failure)) :
    Halted start before later c failure ((start.run before).2.call c).2 := by
  obtain ⟨husable, hstate⟩ := stopped_of_call ((config_run start before).symm ▸ hpolicy) hfails
  have hfrozen := frozen_of_poisoned (congrArg Engine.poisoned hstate)
  -- The replies: those from before, the failure, and refusals from then on.
  have hrun : start.run (before ++ c :: later) = ((start.run before).1 ++ .error (.eval failure)
      :: later.map fun d => (((start.run before).2.call c).2.call d).1,
      ((start.run before).2.call c).2) := by
    rw [run_append, run_cons, hfrozen.run, hfails]
  refine ⟨hstate, husable, hfrozen, hrun, fun other hother => ?_⟩
  rw [hrun] at hother
  rcases List.mem_append.mp hother with hother | hother
  · -- An earlier failure would have stopped the engine.
    have hearlier := poisoned_of_mem_run hpolicy hother
    exact absurd (husable.symm.trans hearlier) (by simp)
  · rcases List.mem_cons.mp hother with hother | hother
    · exact EngineError.eval.inj (Except.error.inj hother)
    · obtain ⟨d, -, hd⟩ := List.mem_map.mp hother
      obtain ⟨error, hreason, hcall⟩ := hfrozen.refused d
      rw [hcall] at hd
      exact absurd (Except.error.inj hd) (hreason other)

/-- **An engine that has stopped is frozen.** Where failures stop the engine, this is so in every
    run in which a call fails, whatever was called before and is called later. Where they are
    handed on, no run ever stops the engine. -/
theorem frozen_of_run (config : Config) :
    (config.failurePolicy = .fatal → ∀ before later c failure,
      (((new config).run before).2.call c).1 = .error (.eval failure) →
      Halted (new config) before later c failure (((new config).run before).2.call c).2)
    ∧ (config.failurePolicy = .forward → ∀ calls, ((new config).run calls).2.poisoned = none) :=
  ⟨fun hpolicy _ _ _ _ hfails => halted_of_call hpolicy hfails,
    fun hpolicy calls => usable_run hpolicy rfl calls⟩

/-- An expression that looks up a name which nothing was recorded under. -/
def lookingUp (name : String) : Plan :=
  ⟨"lag", [⟨0, "leaf", .identifier, .name name, []⟩], [0], 0⟩

/-- A cycle fails at a name that is not known. To load the expression once more is refused for this
    failure and not for its name, and to record a value under the missing name comes too late. -/
theorem frozen_of_lookingUp :
    let before := [Call.load (lookingUp "energy")]
    let later := [Call.load (lookingUp "energy"), Call.record "energy" (.int 2)]
    let cycle := Call.executeCycle none fun _ sent => .ok [sent]
    let failure : Failure := ⟨"lag", "leaf", .identifier, .unknownIdentifier "energy"⟩
    let stopped : Engine :=
      { plans := [lookingUp "energy"], poisoned := some failure.message }
    Halted (new {}) before later cycle failure stopped
      ∧ ((new {}).run (before ++ cycle :: later)).1 = [.ok (.loaded (lookingUp "energy")),
        .error (.eval failure), .error (.poisoned failure.message),
        .error (.poisoned failure.message)]
      ∧ ((new { failurePolicy := .forward }).run (before ++ cycle :: later)).2.poisoned = none :=
  ⟨(frozen_of_run {}).1 rfl _ _ _ _ rfl, rfl,
    (frozen_of_run { failurePolicy := .forward }).2 rfl _⟩

/-! ### What is answered after a failure -/

/-- After the first failure of a run, every call is refused. -/
structure Refused (start : Engine) (before later : List Call) (c : Call) (failure : Failure) :
    Prop where
  first : ∀ other, .error (.eval other) ∉ (start.run before).1
  /-- The replies, and the engine at the end. -/
  run : start.run (before ++ c :: later) = ((start.run before).1
    ++ .error (.eval failure) :: later.map fun d => .error (d.refusal failure.message),
      { (start.run before).2 with poisoned := some failure.message })
  /-- The reason is the failure, unless the call is to load a graph that has no plan. -/
  poisoned : ∀ d ∈ later, d.graphError? = none →
    d.refusal failure.message = .poisoned failure.message
  /-- A graph that has no plan is refused for this, and the failure is not mentioned. -/
  graph : ∀ d ∈ later, ∀ error, d.graphError? = some error →
    d.refusal failure.message = .graph error

/-- **Every call after the first failure is refused.** It is refused for the reason of this failure,
    whatever is loaded, recorded or run on whatever mesh, with the exception of graphs that have no
    plan: they are planned before the engine is asked whether it can still be used. -/
theorem refused_of_run {start : Engine} (hpolicy : start.config.failurePolicy = .fatal)
    {before : List Call} {c : Call} {failure : Failure}
    (hfails : ((start.run before).2.call c).1 = .error (.eval failure)) (later : List Call) :
    Refused start before later c failure := by
  have hhalted : Halted start before later c failure _ := halted_of_call hpolicy hfails
  refine ⟨fun other hother => ?_, ?_, fun d _ hd => d.refusal_eq_poisoned hd _,
    fun d _ error hd => d.refusal_eq_graph hd _⟩
  · -- An earlier failure would have stopped the engine before the call.
    have hearlier := poisoned_of_mem_run hpolicy hother
    exact absurd (hhalted.usable.symm.trans hearlier) (by simp)
  · rw [hhalted.run, ← hhalted.state]
    simp only [call_eq_of_poisoned hhalted.frozen.poisoned]

/-- A graph without nodes. -/
def blank : Graph := ⟨"e", [], [], "x"⟩

/-- After a cycle has failed at a name that is not known, an expression, a value under the missing
    name and another cycle are refused for this, and a graph without nodes for having none. -/
theorem refused_of_lookingUp :
    let before := [Call.load (lookingUp "energy")]
    let cycle := Call.executeCycle none fun _ sent => .ok [sent]
    let later := [.load (lookingUp "mass"), .record "energy" (.int 2), cycle, .loadGraph blank]
    let failure : Failure := ⟨"lag", "leaf", .identifier, .unknownIdentifier "energy"⟩
    Refused (new {}) before later cycle failure
      ∧ later.map Call.graphError? = [none, none, none, some (.emptyGraph "e")] :=
  ⟨refused_of_run rfl rfl _, rfl⟩

/-- The graph without nodes is not refused for the failure that has stopped the engine. -/
theorem loadGraph_blank_of_lookingUp :
    let cycle := Call.executeCycle none fun _ sent => .ok [sent]
    let stopped := ((new {}).run [.load (lookingUp "energy"), cycle]).2
    let failure : Failure := ⟨"lag", "leaf", .identifier, .unknownIdentifier "energy"⟩
    stopped.config.failurePolicy = .fatal ∧ stopped.poisoned = some failure.message
      ∧ (stopped.loadGraph blank).1 = .error (.graph (.emptyGraph "e"))
      ∧ ∀ reason, (stopped.loadGraph blank).1 ≠ .error (.poisoned reason) :=
  ⟨rfl, rfl, rfl, fun _ h => nomatch Except.error.inj h⟩

end MeshExpr.Engine
