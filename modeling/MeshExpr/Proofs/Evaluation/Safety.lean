import MeshExpr.Proofs.Evaluation.Cause
import MeshExpr.Proofs.Evaluation.Indices
import MeshExpr.Proofs.Evaluation.Trace

namespace MeshExpr

open Collective

/-!
# What planning rules out

Planning checks the parameters of every node and wires every port, and a reduction looks its field
up in the mesh before it begins. So some errors have no cause in the evaluation of a plan, whatever
the history and the mesh are and whatever the exchanges answer, short of the error itself.

* `EvalError.RuledOut` — the errors that no evaluation of a plan fails with;
  `Graph.Image.not_ruledOut` says so.
* `Answer.Communicates` — a failed exchange that is reported as such.
* `Graph.Starved` — a port that is wired to a node with the empty value.
* `Graph.Layout.starved_of_follows` — an argument that is not supplied belongs to such a port.
* `Graph.safe_of_plan` — all this together, with every index in range.
-/

/-! ### Errors without a cause -/

namespace EvalError

/-- The errors that planning rules out, and those of a mesh that a reduction rules out before it
    begins. -/
inductive RuledOut : EvalError → Prop where
  | paramKind (filter : Filter) (kind : ParamKind) : RuledOut (.paramKindMismatch filter kind)
  | fieldNotFound (field : String) : RuledOut (.mesh (.fieldNotFound field))
  | schemaMismatch (field : String) (fault : SchemaFault) :
      RuledOut (.mesh (.schemaMismatch field fault))

end EvalError

/-- If the exchange has failed, then it says no more than that the communication has. -/
def Answer.Communicates (answer : Answer) : Prop :=
  ∀ e, answer = .error e → ∃ fault, e = .communication fault

/-- A look-up fails because of the name. -/
theorem Context.lookUp_eq_error {ctx : Context} {name : String} {e : EvalError}
    (h : ctx.lookUp name = .error e) : e = .unknownIdentifier name ∨ e = .emptyHistory name := by
  unfold lookUp at h
  split at h
  · exact .inl (Except.error.inj h).symm
  · split at h
    · exact absurd h (by simp)
    · exact .inr (Except.error.inj h).symm

/-- A parameter that was read is of the kind that is wanted. -/
theorem ParamSpec.kind?_of_read {spec : ParamSpec} {params : RawParams} {param : Param}
    (h : spec.read params = .ok param) : param.kind? = spec.kind? := by
  unfold read at h
  cases spec <;> dsimp only at h
  case nothing =>
    exact Except.ok.inj h ▸ rfl
  -- Wherever a value is read, it is read as a parameter of this kind.
  all_goals
    repeat' split at h
    all_goals first
      | exact Except.ok.inj h ▸ rfl
      | exact absurd h (by simp)

/-- A parameter that has passed its check, too, is of the kind that is wanted. -/
theorem ParamSpec.kind?_of_check {spec : ParamSpec} {params : RawParams} {param : Param}
    (h : spec.check params = .ok param) : param.kind? = spec.kind? := by
  unfold check at h
  split at h
  · rename_i hread
    exact kind?_of_read (Except.ok.inj h ▸ hread)
  · exact absurd h (by simp)

namespace Filter

variable {filter : Filter} {ctx : Context} {inputs : Inputs} {param : Param} {e : EvalError}
  {allowed : Answer → Prop}

/-- A filter whose parameter is of the wanted kind has no cause for an error that is ruled out, if
    no exchange answers with it. -/
theorem Cause.not_ruledOut (h : filter.Cause allowed ctx inputs param e)
    (hparam : param.kind? = filter.paramSpec.kind?)
    (hallowed : ∀ answer, allowed answer → Answer.Communicates answer) : ¬e.RuledOut := by
  intro hruled
  cases h with
  | param hkind hother => exact hother (hparam.trans hkind)
  | lookUp _ hlookUp =>
    rcases Context.lookUp_eq_error hlookUp with rfl | rfl <;> cases hruled
  | exchange hanswer =>
    obtain ⟨fault, rfl⟩ := hallowed _ hanswer _ rfl
    cases hruled
  | _ => cases hruled

/-- An argument is not supplied if the port needs one and its place is empty. -/
theorem Cause.exists_of_notSupplied {other : Filter} {port : String}
    (h : filter.Cause allowed ctx inputs param (.typeMismatch other (.notSupplied port))) :
    other = filter ∧ ∃ slot, filter.ports[slot]? = some ⟨port, false⟩
      ∧ inputs.optional? slot = none := by
  cases h with
  | @notSupplied slot port hport hoptional hempty =>
    refine ⟨rfl, slot, ?_, hempty⟩
    rw [hport, ← hoptional]
  | mismatch hother => exact absurd rfl (hother port)
  | lookUp _ hlookUp => rcases Context.lookUp_eq_error hlookUp with h | h <;> cases h

end Filter

/-- Against every partner whose own errors are those of communication, an evaluation fails with no
    error that is ruled out. -/
theorem Graph.Image.not_ruledOut {g : Graph} {p : Plan} {m : Manifest} (h : g.Image p m)
    {ctx : Context} {partner : Nat → List Float → Answer} {start : Nat} {failure : Failure}
    (hpartner : ∀ k sent, Answer.Communicates (partner k sent))
    (hfails : ((p.evaluate ctx).run.runWith partner start).1 = .error failure) :
    ¬failure.error.RuledOut := by
  obtain ⟨node, hnode, inputs, e, rfl, hcause⟩ := (p.evaluate_fails ctx).runWith hpartner hfails
  obtain ⟨id, hid⟩ := List.mem_iff_getElem?.mp hnode
  obtain ⟨-, declared, -, -, -, hcheck⟩ := h.node id node hid
  exact hcause.not_ruledOut (ParamSpec.kind?_of_check hcheck) fun _ hanswer => hanswer

/-! ### Arguments that are not supplied -/

/-- The nodes that have run are nodes of the plan. -/
theorem Plan.Follows.node_of_mem {p : Plan} {ctx : Context} {runs : List NodeRun}
    (h : p.Follows ctx runs) {run : NodeRun} (hrun : run ∈ runs) :
    p.nodes[run.node.id]? = some run.node := by
  induction h with
  | start => exact absurd hrun List.not_mem_nil
  | next _ _ _ node _ _ _ ih =>
    rcases List.mem_append.mp hrun with hrun | hrun
    · exact ih hrun
    · exact List.mem_singleton.mp hrun ▸ node

/-- A port of a node that has run is wired to a node that has run before and has the empty value. -/
structure Graph.Starved (g : Graph) (runs : List NodeRun) (run : NodeRun) (port : String)
    (producer : NodeRun) : Prop where
  ran : producer ∈ runs
  /-- There is an edge from this node to the port, and none from any other node. -/
  wired : ∀ source, ⟨source, run.node.name, port⟩ ∈ g.edges ↔ source = producer.node.name
  empty : ∃ value, producer.result = .ok value ∧ value.isEmpty = true

namespace Graph.Layout

variable {g : Graph} (l : g.Layout) {ctx : Context}

/-- An edge that ends at a port comes from the one node that is its input. -/
theorem mem_edges_iff_eq_name {node producer : PlannedNode} {slot : Nat} {port : String}
    (hnode : l.plan.nodes[node.id]? = some node)
    (hproducer : l.plan.nodes[producer.id]? = some producer)
    (hport : node.filter.portList[slot]? = some port)
    (hinput : node.inputs[slot]? = some producer.id) (source : String) :
    ⟨source, node.name, port⟩ ∈ g.edges ↔ source = producer.name := by
  rw [l.mem_edges_iff_input hnode hport]
  constructor
  · rintro ⟨i, found, hi, hfound, rfl⟩
    obtain rfl := Option.some.inj (hi.symm.trans hinput)
    rw [Option.some.inj (hfound.symm.trans hproducer)]
  · rintro rfl
    exact ⟨_, _, hinput, hproducer, rfl⟩

/-- **Empty values.** If an argument is not supplied, then its port is wired to a node with the
    empty value. -/
theorem starved_of_follows {runs : List NodeRun} (h : l.plan.Follows ctx runs) {run : NodeRun}
    (hrun : run ∈ runs) {filter : Filter} {port : String}
    (hresult : run.result = .error (.typeMismatch filter (.notSupplied port))) :
    ∃ producer, g.Starved runs run port producer := by
  cases h with
  | start => exact absurd hrun List.not_mem_nil
  | @next earlier last before succeeded _ node inputs computed _ =>
    rcases List.mem_append.mp hrun with hrun | hrun
    · -- Only the last node can have failed.
      obtain ⟨v, hv⟩ := succeeded run hrun
      exact absurd (hresult.symm.trans hv) (by simp)
    obtain rfl := List.mem_singleton.mp hrun
    have hfails : Fails anyAnswer (run.node.filter.Cause anyAnswer ctx run.inputs run.node.param)
        (run.node.filter.compute ctx run.inputs run.node.param) := Filter.compute_fails ..
    have hcause := Always.of_runs hfails computed (fun _ _ => trivial) _ hresult
    obtain ⟨rfl, slot, hport, hempty⟩ := hcause.exists_of_notSupplied
    -- The port is wired, so there is a producer, and its value was the argument.
    have hslot : slot < run.node.inputs.length := by
      rw [l.image.length_inputs _ (List.mem_of_getElem? node)]
      exact (List.getElem?_eq_some_iff.mp hport).1
    have hinput := List.getElem?_eq_getElem hslot
    have hvalue := List.getElem?_eq_getElem (inputs.length_eq ▸ hslot)
    obtain ⟨producer, hproducer, hid, hresult⟩ :=
      (forall₂_iff_getElem?.mp inputs).2 slot _ _ hinput hvalue
    rw [← hid] at hinput
    have hname : run.node.filter.portList[slot]? = some port := by
      simp [Filter.portList, hport]
    have hwired := l.mem_edges_iff_eq_name node (before.node_of_mem hproducer) hname hinput
    refine ⟨producer, List.mem_append_left _ hproducer, hwired, _, hresult, ?_⟩
    unfold Inputs.optional? at hempty
    rw [hvalue] at hempty
    simpa using hempty

end Graph.Layout

/-! ### The main result -/

/-- What is ruled out in the evaluation of a plan against a partner. -/
structure Graph.Safe (g : Graph) (p : Plan) (ctx : Context) (partner : Nat → List Float → Answer)
    (start : Nat) : Prop where
  /-- If every index is checked, then the evaluation is the same program, ... -/
  indexed : p.evaluateIndexed ctx = (p.evaluate ctx).adapt .failed
  /-- ... which finds something at every index. -/
  inRange : ((p.evaluateIndexed ctx).run.runWith partner start).1 ≠ .error .outOfRange
  /-- Counting the samples of a field, too, finds a bin at every index. -/
  counts : ∀ mesh, ctx.mesh = some mesh → ∀ field decl bins minVal maxVal,
    Mesh.countIndexed bins (mesh.binIndices field decl bins minVal maxVal)
      = pure (Mesh.count bins (mesh.binIndices field decl bins minVal maxVal))
  /-- A reduction only reads parts of the length that its rank has sent. -/
  parts : ∀ width answer parts, Reduction.readAnswer width answer = .ok parts →
    ∀ part ∈ parts, part.length = width
  /-- The errors that are ruled out do not occur, unless the partner itself answers with one. -/
  ruledOut : (∀ k sent, Answer.Communicates (partner k sent)) →
    ∀ failure, ((p.evaluate ctx).run.runWith partner start).1 = .error failure →
      ¬failure.error.RuledOut
  /-- Of the nodes that have run, one that has not been supplied with an argument is wired to one
      with the empty value. -/
  supplied : ∃ runs, p.Follows ctx runs ∧ p.Ends runs ((p.evaluate ctx).run.runWith partner start).1
    ∧ ∀ run ∈ runs, ∀ filter port, run.result = .error (.typeMismatch filter (.notSupplied port)) →
      ∃ producer, g.Starved runs run port producer

/-- **Planning rules out whole classes of errors**, for every history, on every mesh or none, and
    whatever the exchanges answer, as long as their own errors are those of communication. -/
theorem Graph.safe_of_plan {g : Graph} {p : Plan} {m : Manifest} (h : g.plan = .ok (p, m))
    (ctx : Context) (partner : Nat → List Float → Answer) (start : Nat) :
    g.Safe p ctx partner start := by
  obtain ⟨l, hl⟩ := plan_eq_ok_iff.mp h
  obtain ⟨rfl, rfl⟩ := Prod.mk.inj hl
  -- With its indices checked, the evaluation is the same program.
  have hindexed : l.plan.evaluateIndexed ctx = (l.plan.evaluate ctx).adapt .failed :=
    l.image.evaluateIndexed_eq
  refine ⟨hindexed, fun hout => ?_, fun mesh _ field decl bins minVal maxVal => ?_,
    fun width answer parts hparts part hpart => Reduction.length_of_readAnswer hparts hpart,
    fun hpartner failure hfails => l.image.not_ruledOut hpartner hfails, ?_⟩
  · rw [hindexed] at hout
    have hfailed : Fails anyAnswer (· ≠ Stop.outOfRange) ((l.plan.evaluate ctx).adapt .failed) :=
      (l.plan.evaluate_fails ctx).adapt (by simp)
    exact hfailed.runWith (fun _ _ => trivial) hout rfl
  · exact Mesh.countIndexed_eq fun i hi => Mesh.lt_of_mem_binIndices hi
  · obtain ⟨exchanges, hruns, -, -⟩ := exists_runs (l.plan.evaluate ctx).run partner start
    obtain ⟨runs, hfollows, hends, -⟩ := l.exists_follows_of_runs_evaluate hruns
    exact ⟨runs, hfollows, hends, fun run hrun filter port hresult =>
      l.starved_of_follows hfollows hrun hresult⟩

/-- The length of nothing. -/
def Graph.hollow : Graph where
  name := "hollow"
  nodes := [⟨"none", "null_arg", ∅⟩, ⟨"length", "magnitude", ∅⟩]
  edges := [⟨"none", "length", "arg1"⟩]
  output := "length"

/-- The plan of `hollow`. -/
def Graph.hollowPlan : Plan where
  name := "hollow"
  nodes := [⟨0, "none", .nullArg, .nothing, []⟩, ⟨1, "length", .magnitude, .nothing, [0]⟩]
  order := [0, 1]
  output := 1

/-- A port that is wired to the empty value: the argument is not supplied, as far as the filter can
    tell. A partner that answers with what it is sent has no errors of its own. -/
theorem Graph.safe_of_hollow :
    hollow.plan = .ok (hollowPlan, ⟨2, 1, 0, 2⟩)
      ∧ hollow.Safe hollowPlan {} (fun _ sent => .ok [sent]) 0
      ∧ (∀ sent : List Float, Answer.Communicates (.ok [sent]))
      ∧ ((hollowPlan.evaluate {}).run.runWith (fun _ sent => .ok [sent]) 0).1
        = .error ⟨"hollow", "length", .magnitude, .typeMismatch .magnitude (.notSupplied "arg1")⟩ :=
  ⟨by rfl, safe_of_plan (by rfl) _ _ _, fun _ _ h => absurd h (by simp), by rfl⟩

end MeshExpr
