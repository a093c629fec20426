import MeshExpr.Proofs.Engine.Atomic
import MeshExpr.Proofs.Evaluation.Cause

namespace MeshExpr

open Collective

/-!
# The history is the log of a run

A run is a sequence of calls of the operations of the engine, in any order and with any mesh and any
partner for each cycle. What the calls have done says what every log holds: the values that were
recorded under its name, and the results of the expression of its name, in the order of the calls.

* `Engine.Call`, `Engine.Event` and `Engine.run` — calls, what they have done, and runs.
* `Engine.cyclesRun_run_le` — there are no more cycles than calls.
* `Engine.logged` — the log that a name should have after some events.
* `Engine.Chronicle` — the engine is as the events say; `Engine.Chronicle.afterCall` is one call,
  `Engine.Chronicle.afterRun` a run.
* `Engine.exactLog_of_run` — what holds after every run of a new engine.
-/

namespace Engine

/-! ### Runs -/

/-- A call of an operation. -/
inductive Call where
  | load (plan : Plan)
  | loadGraph (g : Graph)
  | record (name : String) (value : Value)
  /-- A cycle on a mesh or on none, against a partner. -/
  | executeCycle (mesh : Option Mesh) (partner : Nat → List Float → Answer)

/-- What a call that succeeds has done. -/
inductive Event where
  | loaded (plan : Plan)
  | recorded (name : String) (value : Value)
  | completed (report : CycleReport)

namespace Event

/-- The expression that was loaded. -/
def plan? : Event → Option Plan
  | loaded plan => some plan
  | _ => none

/-- The report of the cycle that was completed. -/
def report? : Event → Option CycleReport
  | completed report => some report
  | _ => none

/-- The values that an event adds to the log of a name. -/
def values (config : Config) (name : String) : Event → List Value
  | loaded _ => []
  | recorded other value => if other = name then [value] else []
  | completed report => if config.recordHistory then (report.get? name).toList else []

end Event

/-- What comes out of a call. -/
abbrev Reply := Except EngineError Event

/-- Calls an operation. -/
def call (e : Engine) : Call → Outcome Event
  | .load plan =>
    let outcome := e.load plan
    (outcome.1.map fun () => .loaded plan, outcome.2)
  | .loadGraph g =>
    let outcome := e.loadGraph g
    (outcome.1.bind fun _ => (g.plan.mapError .graph).map fun (plan, _) => .loaded plan, outcome.2)
  | .record name value =>
    let outcome := e.record name value
    (outcome.1.map fun () => .recorded name value, outcome.2)
  | .executeCycle mesh partner =>
    let outcome := ((e.executeCycle mesh).runWith partner 0).1
    (outcome.1.map .completed, outcome.2)

/-- Calls operations one after the other, and gives what comes out of each of them. -/
def run (e : Engine) : List Call → List Reply × Engine
  | [] => ([], e)
  | c :: cs =>
    let (reply, e') := e.call c
    let (replies, last) := e'.run cs
    (reply :: replies, last)

/-- What has been done, in order. -/
def events (replies : List Reply) : List Event := replies.filterMap Except.toOption

/-- The log that a name should have. -/
def logged (config : Config) (events : List Event) (name : String) : List Value :=
  events.flatMap (·.values config name)

/-- The expressions that were loaded, in order. -/
def loadedPlans (events : List Event) : List Plan := events.filterMap Event.plan?

/-- The reports of the cycles that were completed, in order. -/
def reports (events : List Event) : List CycleReport := events.filterMap Event.report?

/-! ### One call -/

variable {e e' : Engine} {config : Config} {done : List Event} {reply : Reply}

/-- The outcomes that a call can have. -/
inductive CallEnds (e : Engine) : Outcome Event → Prop where
  | loaded {plan : Plan} (hname : plan.name ∉ e.expressionNames) :
      CallEnds e (.ok (.loaded plan), { e with plans := e.plans ++ [plan] })
  | recorded (name : String) (value : Value) :
      CallEnds e (.ok (.recorded name value), { e with history := e.history.append name value })
  | completed {mesh : Option Mesh} {partner : Nat → List Float → Answer} {report : CycleReport}
      {e' : Engine} (h : e.Completed mesh partner report e') :
      CallEnds e (.ok (.completed report), e')
  | aborted {mesh : Option Mesh} {partner : Nat → List Float → Answer} {error : EngineError}
      {e' : Engine} (h : e.Aborted mesh partner error e') : CallEnds e (.error error, e')
  | refused {error : EngineError} (h : ∀ failure, error ≠ .eval failure) :
      CallEnds e (.error error, e)

/-- A call ends in one of these ways. -/
theorem callEnds (e : Engine) (c : Call) : CallEnds e (e.call c) := by
  cases c with
  | load plan =>
    have hload := e.load_spec plan
    unfold call
    dsimp only
    generalize e.load plan = outcome at hload
    cases hload with
    | refused h => exact .refused h
    | done h =>
      -- A plan that was loaded has a new name.
      obtain ⟨hname, rfl⟩ := h
      exact .loaded hname
  | loadGraph g =>
    have hload := e.loadGraph_spec g
    unfold call
    dsimp only
    generalize e.loadGraph g = outcome at hload
    cases hload with
    | refused h => exact .refused h
    | done h =>
      obtain ⟨plan, hplan, hname, rfl⟩ := h
      rw [hplan]
      exact .loaded hname
  | record name value =>
    have hrecord := e.record_spec name value
    unfold call
    dsimp only
    generalize e.record name value = outcome at hrecord
    cases hrecord with
    | refused h => exact .refused h
    | done h =>
      subst h
      exact .recorded name value
  | executeCycle mesh partner =>
    have hcycle := (e.cycleEnds mesh partner 0).spec
    unfold call
    dsimp only
    generalize ((e.executeCycle mesh).runWith partner 0).1 = outcome at hcycle
    rcases outcome with ⟨error | report, e'⟩
    · exact .aborted hcycle
    · exact .completed hcycle

/-- One call completes one cycle at most. -/
theorem cyclesRun_call_le (e : Engine) (c : Call) : (e.call c).2.cyclesRun ≤ e.cyclesRun + 1 := by
  have hends := e.callEnds c
  generalize e.call c = outcome at hends
  cases hends with
  | loaded _ | recorded _ _ | refused _ => exact Nat.le_succ _
  | completed h => exact Nat.le_of_eq h.cyclesRun
  | aborted h => exact Nat.le_succ_of_le (Nat.le_of_eq h.cyclesRun)

/-- There are no more cycles than calls, so the number of cycles is one of a machine word after
    every run of fewer than `2 ^ 64` calls. -/
theorem cyclesRun_run_le (e : Engine) (calls : List Call) :
    (e.run calls).2.cyclesRun ≤ e.cyclesRun + calls.length := by
  induction calls generalizing e with
  | nil => exact Nat.le_refl _
  | cons c cs ih =>
    have hstep := e.cyclesRun_call_le c
    have hrest := ih (e.call c).2
    rw [List.length_cons]
    show ((e.call c).2.run cs).2.cyclesRun ≤ _
    omega

/-- The results of a report are those of the expressions that had been loaded, in the order in which
    they were, and each of them was evaluated against the log of the events before. -/
def Reported (config : Config) (before : List Event) (report : CycleReport) : Prop :=
  List.Forall₂ (fun (plan : Plan) result => result.1 = plan.name
    ∧ ∃ mesh history partner n, History.empty.Gains history (logged config before)
      ∧ ((plan.evaluate ⟨mesh, history, config.cycleVar⟩).run.runWith partner n).1 = .ok result.2)
    (loadedPlans before) report.results

/-- The engine is as the events say. -/
structure Chronicle (config : Config) (done : List Event) (e : Engine) : Prop where
  settings : e.config = config
  /-- The expressions are those that were loaded, in order. -/
  plans : e.plans = loadedPlans done
  /-- No two of them have the same name. -/
  distinct : e.expressionNames.Nodup
  /-- Each name has exactly the log that it should have, and none if this would be empty. -/
  history : History.empty.Gains e.history (logged config done)
  /-- Reports are numbered one after the other, and there is one for each cycle. -/
  numbered : (reports done).map (·.cycle) = List.range e.cyclesRun
  reported : ∀ before report, before ++ [.completed report] <+: done →
    Reported config before report

/-- A new engine is as it should be when nothing has happened. -/
theorem chronicle_new (config : Config) : Chronicle config [] (.new config) where
  settings := rfl
  plans := rfl
  distinct := List.nodup_nil
  history := .refl .empty
  numbered := rfl
  reported := fun before report h => absurd h (by simp)

/-- One more event adds its own values to the log of each name. -/
theorem logged_concat (config : Config) (done : List Event) (event : Event) :
    logged config (done ++ [event])
      = fun name => logged config done name ++ event.values config name := by
  funext name
  simp [logged]

/-- One more event adds its report, if it has one. -/
theorem reports_concat (done : List Event) (event : Event) :
    reports (done ++ [event]) = reports done ++ event.report?.toList := by
  unfold reports
  rw [List.filterMap_append]
  cases event <;> rfl

/-- One more event adds its expression, if it has one. -/
theorem loadedPlans_concat (done : List Event) (event : Event) :
    loadedPlans (done ++ [event]) = loadedPlans done ++ event.plan?.toList := by
  unfold loadedPlans
  rw [List.filterMap_append]
  cases event <;> rfl

/-- One more event. -/
theorem Chronicle.concat (h : Chronicle config done e) {event : Event}
    (settings : e'.config = e.config) (plans : e'.plans = e.plans ++ event.plan?.toList)
    (distinct : ∀ plan, event.plan? = some plan → plan.name ∉ e.expressionNames)
    (history : e.history.Gains e'.history fun name => event.values config name)
    (numbered : List.range e'.cyclesRun
      = List.range e.cyclesRun ++ event.report?.toList.map (·.cycle))
    (reported : ∀ report, event = .completed report → Reported config done report) :
    Chronicle config (done ++ [event]) e' where
  settings := settings.trans h.settings
  plans := by rw [plans, h.plans, loadedPlans_concat]
  distinct := by
    have hnames : e'.expressionNames = e.expressionNames ++ event.plan?.toList.map (·.name) := by
      simp [expressionNames, plans]
    rw [hnames]
    cases hplan : event.plan? with
    | none => simpa using h.distinct
    | some plan => simpa using h.distinct.concat (distinct plan hplan)
  history := by
    rw [logged_concat]
    exact h.history.trans history
  numbered := by rw [reports_concat, List.map_append, h.numbered, numbered]
  reported := by
    intro before report hbefore
    -- A report is the last event, or was there before.
    rcases List.prefix_concat_iff.mp hbefore with heq | hbefore
    · obtain ⟨rfl, hlast⟩ := List.append_inj' heq rfl
      exact reported report (List.singleton_inj.mp hlast).symm
    · exact h.reported before report hbefore

/-! ### What a cycle adds -/

section Completed

variable {mesh : Option Mesh} {partner : Nat → List Float → Answer} {report : CycleReport}

/-- A cycle adds to each log at most one value, the result of the expression of its name. -/
theorem Completed.gains (h : e.Completed mesh partner report e')
    (hdistinct : e.expressionNames.Nodup) :
    e.history.Gains e'.history fun name => Event.values e.config name (.completed report) := by
  unfold Event.values
  cases hrecord : e.config.recordHistory with
  | true =>
    have hvalues : History.valuesOf report.results = fun name => (report.get? name).toList :=
      funext (CycleReport.valuesOf_results (h.names ▸ hdistinct))
    simpa [hvalues] using h.recorded hrecord
  | false => simpa [h.unrecorded hrecord] using History.Gains.refl e.history

end Completed

/-- However a call ends, the engine is as the events say. -/
theorem Chronicle.ends (h : Chronicle config done e) (hends : CallEnds e (reply, e')) :
    Chronicle config (done ++ reply.toOption.toList) e' := by
  cases hends with
  | @loaded plan hname =>
    refine h.concat rfl rfl ?_ (.refl e.history) (by simp [Event.report?]) (by simp)
    rintro _ ⟨⟩
    exact hname
  | recorded name value =>
    refine h.concat rfl (by simp [Event.plan?]) (by simp [Event.plan?]) ?_
      (by simp [Event.report?]) (by simp)
    exact e.history.gains_append name value
  | @completed mesh partner report e' hcompleted =>
    -- The names are distinct, so that each log gains one value at most.
    have hgains := hcompleted.gains h.distinct
    rw [h.settings] at hgains
    refine h.concat hcompleted.config (by simp [hcompleted.plans, Event.plan?])
      (by simp [Event.plan?]) hgains ?_ ?_
    · rw [hcompleted.cyclesRun, List.range_succ, ← hcompleted.cycle]
      rfl
    · rintro _ ⟨⟩
      unfold Reported
      rw [← h.plans]
      refine hcompleted.results.imp ?_
      -- The values were computed with the history as it was before the cycle.
      rintro plan result ⟨hname, n, hvalue⟩
      refine ⟨hname, mesh, e.history, partner, n, h.history, ?_⟩
      rw [← h.settings]
      exact hvalue
  | aborted haborted =>
    show Chronicle config (done ++ []) e'
    rw [List.append_nil]
    obtain ⟨hhistory, hplans, hconfig, hcyclesRun, -, -⟩ := haborted
    have hnames : e'.expressionNames = e.expressionNames := congrArg (List.map Plan.name) hplans
    exact ⟨hconfig.trans h.settings, hplans.trans h.plans, hnames ▸ h.distinct,
      hhistory ▸ h.history,
      hcyclesRun ▸ h.numbered, h.reported⟩
  | refused hreason =>
    show Chronicle config (done ++ []) e
    rw [List.append_nil]
    exact h

/-- **One call.** After it the engine is as the events say, with what the call has done behind
    them. -/
theorem Chronicle.afterCall (h : Chronicle config done e) (c : Call) :
    Chronicle config (done ++ (e.call c).1.toOption.toList) (e.call c).2 :=
  h.ends (e.callEnds c)

/-! ### Reading and growing -/

/-- What an identifier computes when the engine is as the events say. -/
theorem Chronicle.identifier (h : Chronicle config done e) (mesh : Option Mesh) (inputs : Inputs)
    (name : String) :
    Filter.identifier.compute (e.context mesh) inputs (.name name)
      = Eval.ofExcept (match (logged config done name).getLast? with
        | some value => .ok value
        | none => .error (.unknownIdentifier name)) :=
  congrArg Eval.ofExcept (h.history.lookUp_eq rfl name)

/-- No expression ever finds a log without a value. -/
theorem Chronicle.error_ne_emptyHistory (h : Chronicle config done e) {p : Plan}
    {mesh : Option Mesh} {partner : Nat → List Float → Answer} {n : Nat} {failure : Failure}
    (hfailed : ((p.evaluate (e.context mesh)).run.runWith partner n).1 = .error failure)
    (name : String) : failure.error ≠ .emptyHistory name := by
  have hfails : Collective.Fails Collective.anyAnswer _ (p.evaluate (e.context mesh)) :=
    p.evaluate_fails _
  obtain ⟨node, -, inputs, error, rfl, hcause⟩ := hfails.runWith (fun _ _ => trivial) hfailed
  rintro rfl
  -- Only a look-up gives this error, and here it gives another one.
  cases hcause with
  | lookUp _ hlookUp =>
    rw [h.history.lookUp_eq rfl] at hlookUp
    split at hlookUp
    · exact absurd hlookUp (by simp)
    · exact absurd (Except.error.inj hlookUp) (by simp)

/-- No log ever loses a value. -/
theorem Chronicle.entries_prefix (h : Chronicle config done e) (c : Call) (name : String) :
    e.history.entries name <+: (e.call c).2.history.entries name := by
  have hafter := h.afterCall c
  rw [h.history.entries_eq_of_empty, hafter.history.entries_eq_of_empty]
  unfold logged
  rw [List.flatMap_append]
  exact List.prefix_append _ _

/-! ### Runs of a new engine -/

/-- The events of the first call, and those of the rest. -/
theorem events_cons (reply : Reply) (replies : List Reply) :
    events (reply :: replies) = reply.toOption.toList ++ events replies := by
  unfold events
  rw [List.filterMap_cons]
  cases reply <;> rfl

/-- **A run.** Whatever is called, afterwards the engine is as the events say. -/
theorem Chronicle.afterRun (h : Chronicle config done e) (calls : List Call) :
    Chronicle config (done ++ events (e.run calls).1) (e.run calls).2 := by
  induction calls generalizing e done with
  | nil => exact (List.append_nil done).symm ▸ h
  | cons c cs ih =>
    have hrest := ih (h.afterCall c)
    rw [List.append_assoc, ← events_cons] at hrest
    exact hrest

/-- What comes out of a call in the middle of a run comes out of an engine that is as the events
    say. -/
theorem Chronicle.exists_of_mem_run (h : Chronicle config done e) {calls : List Call}
    (hreply : reply ∈ (e.run calls).1) :
    ∃ before e₁ e₂, Chronicle config before e₁ ∧ CallEnds e₁ (reply, e₂) := by
  induction calls generalizing e done with
  | nil => exact absurd hreply List.not_mem_nil
  | cons c cs ih =>
    rcases List.mem_cons.mp hreply with rfl | hreply
    · exact ⟨done, e, _, h, e.callEnds c⟩
    · exact ih (h.afterCall c) hreply

/-- The history is the exact log of what has been done. -/
structure ExactLog (config : Config) (replies : List Reply) (e : Engine) : Prop
    extends Chronicle config (events replies) e where
  entries : ∀ name, e.history.entries name = logged config (events replies) name
  /-- No name has a log without a value. -/
  nonempty : ∀ name, e.history.log? name ≠ some []
  /-- There have been as many cycles as there are reports. -/
  cyclesRun : e.cyclesRun = (reports (events replies)).length
  latest : ∀ name, e.history.latest? name = (logged config (events replies) name).getLast?
  count : ∀ name, e.history.count name = (logged config (events replies) name).length
  /-- An identifier has the last value of the log, and fails if there is none. -/
  identifies : ∀ mesh inputs name,
    Filter.identifier.compute (e.context mesh) inputs (.name name)
      = Eval.ofExcept (match (logged config (events replies) name).getLast? with
        | some value => .ok value
        | none => .error (.unknownIdentifier name))
  /-- No cycle has failed at a log without a value. -/
  neverEmpty : ∀ failure, .error (.eval failure) ∈ replies →
    ∀ name, failure.error ≠ .emptyHistory name
  /-- Whatever is called next, every log keeps what it has. -/
  grows : ∀ c name, e.history.entries name <+: (e.call c).2.history.entries name

/-- **The history is the exact log of the run.** This holds after every sequence of calls of a new
    engine: of any expressions and graphs, of values under any names, also under those of
    expressions, and of cycles that succeed, that fail, or that are refused. -/
theorem exactLog_of_run (config : Config) (calls : List Call) :
    ExactLog config ((new config).run calls).1 ((new config).run calls).2 := by
  have hnew := chronicle_new config
  have hrun : Chronicle config (events ((new config).run calls).1) ((new config).run calls).2 :=
    hnew.afterRun calls
  have hentries := hrun.history.entries_eq_of_empty
  refine ⟨hrun, hentries, fun name => ?_, ?_, hrun.history.latest?_eq, hrun.history.count_eq,
    hrun.identifier, fun failure hfailure name => ?_, hrun.entries_prefix⟩
  · rw [hrun.history.log?_eq]
    split
    · simp
    · simpa using ‹_›
  · have hlength := congrArg List.length hrun.numbered
    simpa using hlength.symm
  · obtain ⟨before, e₁, e₂, hbefore, hends⟩ := hnew.exists_of_mem_run hfailure
    -- A cycle that fails is the only call that could look up a log without values. There is none.
    cases hends with
    | refused hreason => exact absurd rfl (hreason failure)
    | aborted haborted =>
      cases haborted.obstacle with
      | failed _ _ _ hfails => exact hbefore.error_ne_emptyHistory hfails name

end Engine

end MeshExpr
