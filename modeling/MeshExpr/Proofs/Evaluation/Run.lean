import MeshExpr.Eval.Plan
import MeshExpr.Proofs.Planning.Image

namespace MeshExpr

/-!
# Runs of a plan on a rank alone

On a rank alone every exchange answers with what was sent, so the evaluation of a plan is a chain of
steps that may fail. Here is what is known of the values in the middle of such a chain.

* `Plan.valuesAfter` — the values when some nodes have run, `PlannedNode.outcome` what a node makes
  of them.
* `Plan.exists_outcome_of_mem` — the value filed under a node is what its filter has computed in
  this very run; no later node overwrites it.
* `Plan.exists_of_valuesAfter_eq_error` — a run that fails does so at its first node that does.
-/

/-! ### Programs that may fail, on a rank alone -/

namespace Collective

variable {α β ε : Type}

/-- A map is applied to the result of the only rank. -/
theorem runAlone_map (f : α → β) (c : Collective α) : (f <$> c).runAlone = f c.runAlone := by
  rw [map_eq_pure_bind, runAlone_bind]
  rfl

/-- For the only rank, programs that may fail are nothing but results that may be errors. -/
theorem runAlone_run_bind (x : ExceptT ε Collective α) (f : α → ExceptT ε Collective β) :
    (x >>= f).run.runAlone = x.run.runAlone >>= fun a => (f a).run.runAlone := by
  rw [ExceptT.run_bind, runAlone_bind]
  cases x.run.runAlone <;> rfl

/-- What follows a program that succeeds. -/
theorem runAlone_run_bind_of_ok {x : ExceptT ε Collective α} {a : α} (h : x.run.runAlone = .ok a)
    (f : α → ExceptT ε Collective β) : (x >>= f).run.runAlone = (f a).run.runAlone := by
  rw [runAlone_run_bind, h]
  rfl

/-- So it is with errors that are made into others, ... -/
theorem runAlone_run_adapt {ε' : Type} (x : ExceptT ε Collective α) (f : ε → ε') :
    (x.adapt f).run.runAlone = x.run.runAlone.mapError f :=
  runAlone_map _ _

/-- ... with programs for the elements of a list that hand on a state, ... -/
theorem runAlone_run_foldlM (f : β → α → ExceptT ε Collective β) (l : List α) (b : β) :
    (l.foldlM f b).run.runAlone = l.foldlM (fun b a => (f b a).run.runAlone) b := by
  induction l generalizing b with
  | nil => rfl
  | cons a rest ih =>
    rw [List.foldlM_cons, List.foldlM_cons, runAlone_run_bind]
    exact congrArg _ (funext ih)

/-- ... and with programs that do not. -/
theorem runAlone_run_mapM (f : α → ExceptT ε Collective β) (l : List α) :
    (l.mapM f).run.runAlone = l.mapM fun a => (f a).run.runAlone := by
  induction l with
  | nil => rfl
  | cons a rest ih =>
    rw [List.mapM_cons, List.mapM_cons, runAlone_run_bind, ← ih]
    refine congrArg _ (funext fun b => ?_)
    rw [runAlone_run_bind]
    rfl

end Collective

/-! ### The values in the middle of a run -/

/-- What the filter of a node makes of the values of the nodes before it, on a rank alone. -/
def PlannedNode.outcome (node : PlannedNode) (ctx : Context) (values : List Value) :
    Except EvalError Value :=
  (node.filter.compute ctx (node.inputs.map (Plan.valueAt values)) node.param).run.runAlone

namespace Plan

variable {p : Plan} {ctx : Context}

/-- The value of a plan, on a rank alone. -/
def evaluateAlone (p : Plan) (ctx : Context) : Except Failure Value :=
  (p.evaluate ctx).run.runAlone

/-- The values when the nodes of a list have run one after the other, on a rank alone. -/
def valuesAfter (p : Plan) (ctx : Context) (ids : List Nat) : Except Failure (List Value) :=
  (ids.foldlM (p.runNode ctx) (List.replicate p.nodes.length .empty)).run.runAlone

/-- The plan with another order of execution. -/
def reorder (p : Plan) (order : List Nat) : Plan := { p with order }

/-- The value of a plan is that of its output, when all nodes have run. -/
theorem evaluateAlone_eq (p : Plan) (ctx : Context) :
    p.evaluateAlone ctx
      = p.valuesAfter ctx p.order >>= fun values => .ok (valueAt values p.output) :=
  Collective.runAlone_run_bind _ _

/-- A plan has a value if all of its nodes have run. -/
theorem evaluateAlone_eq_ok_iff {v : Value} :
    p.evaluateAlone ctx = .ok v ↔
      ∃ values, p.valuesAfter ctx p.order = .ok values ∧ v = valueAt values p.output := by
  rw [evaluateAlone_eq, bind_eq_ok_iff]
  simp only [Except.ok.injEq, eq_comm]

/-- It fails if they have not. -/
theorem evaluateAlone_eq_error_iff {f : Failure} :
    p.evaluateAlone ctx = .error f ↔ p.valuesAfter ctx p.order = .error f := by
  rw [evaluateAlone_eq]
  cases p.valuesAfter ctx p.order <;> simp [bind, Except.bind]

/-- A node that runs files its value under its place, or gives its error. -/
theorem runAlone_runNode {id : Nat} {node : PlannedNode} (hnode : p.nodes[id]? = some node)
    (values : List Value) :
    (p.runNode ctx values id).run.runAlone =
      match node.outcome ctx values with
      | .ok value => .ok (values.set id value)
      | .error e => .error ⟨p.name, node.name, node.filter, e⟩ := by
  unfold runNode PlannedNode.outcome
  rw [hnode]
  dsimp only
  rw [Collective.runAlone_run_bind, Collective.runAlone_run_adapt]
  cases (node.filter.compute ctx (node.inputs.map (valueAt values)) node.param).run.runAlone <;> rfl

/-- The last node runs when the others have. -/
theorem valuesAfter_concat (ids : List Nat) (id : Nat) :
    p.valuesAfter ctx (ids ++ [id])
      = p.valuesAfter ctx ids >>= fun values => (p.runNode ctx values id).run.runAlone := by
  unfold valuesAfter
  rw [List.foldlM_append, Collective.runAlone_run_bind]
  simp only [List.foldlM_cons, List.foldlM_nil, bind_pure]

/-- One more node has run: its filter has computed a value, and the value is filed. -/
theorem valuesAfter_concat_eq_ok_iff {ids : List Nat} {id : Nat} {node : PlannedNode}
    (hnode : p.nodes[id]? = some node) {values : List Value} :
    p.valuesAfter ctx (ids ++ [id]) = .ok values ↔ ∃ before value,
      p.valuesAfter ctx ids = .ok before ∧ node.outcome ctx before = .ok value
        ∧ values = before.set id value := by
  rw [valuesAfter_concat, bind_eq_ok_iff]
  simp only [runAlone_runNode hnode]
  constructor
  · rintro ⟨before, hbefore, h⟩
    split at h
    · rename_i value hvalue
      exact ⟨before, value, hbefore, hvalue, (Except.ok.inj h).symm⟩
    · exact absurd h (by simp)
  · rintro ⟨before, value, hbefore, hvalue, rfl⟩
    exact ⟨before, hbefore, by rw [hvalue]⟩

/-- A position without a node changes nothing. -/
theorem valuesAfter_concat_of_eq_none {ids : List Nat} {id : Nat} (hnone : p.nodes[id]? = none) :
    p.valuesAfter ctx (ids ++ [id]) = p.valuesAfter ctx ids := by
  rw [valuesAfter_concat]
  unfold runNode
  rw [hnone]
  exact bind_pure (p.valuesAfter ctx ids)

/-- Running nodes changes values, not how many there are. -/
theorem length_of_valuesAfter {ids : List Nat} {values : List Value}
    (h : p.valuesAfter ctx ids = .ok values) : values.length = p.nodes.length := by
  induction ids using List.reverseRecOn generalizing values with
  | nil =>
    obtain rfl := Except.ok.inj h
    exact List.length_replicate
  | append_singleton ids id ih =>
    cases hnode : p.nodes[id]? with
    | none => exact ih (valuesAfter_concat_of_eq_none hnode ▸ h)
    | some node =>
      obtain ⟨before, value, hbefore, -, rfl⟩ := (valuesAfter_concat_eq_ok_iff hnode).mp h
      rw [List.length_set]
      exact ih hbefore

/-- The value that was filed is found in its place. -/
theorem valueAt_set_self {values : List Value} {id : Nat} (h : id < values.length) (value : Value) :
    valueAt (values.set id value) id = value := by
  simp [valueAt, h]

/-- The others are found in theirs. -/
theorem valueAt_set_of_ne {values : List Value} {id i : Nat} (h : i ≠ id) (value : Value) :
    valueAt (values.set id value) i = valueAt values i := by
  simp [valueAt, List.getElem?_set_ne h.symm]

/-- **Provenance.** What is filed under a node that has run is what its filter has computed from the
    values at that time; no later node overwrites it, and it is not the value that was there
    before. -/
theorem exists_outcome_of_mem {ids : List Nat} (hnodup : ids.Nodup)
    (hlt : ∀ id ∈ ids, id < p.nodes.length) {values : List Value}
    (h : p.valuesAfter ctx ids = .ok values) {i : Nat} (hi : i ∈ ids) :
    ∃ earlier later producer before, ids = earlier ++ i :: later ∧ p.nodes[i]? = some producer
      ∧ p.valuesAfter ctx earlier = .ok before
      ∧ producer.outcome ctx before = .ok (valueAt values i) := by
  -- By the number of nodes that have run, of which the last one is looked at.
  induction ids using List.reverseRecOn generalizing values with
  | nil => exact absurd hi List.not_mem_nil
  | append_singleton ids id ih =>
    have hlt' : ∀ id ∈ ids, id < p.nodes.length := fun id hid => hlt id (List.mem_append_left _ hid)
    have hid : id < p.nodes.length := hlt id (by simp)
    have hnode := List.getElem?_eq_getElem hid
    obtain ⟨before, value, hbefore, hvalue, rfl⟩ := (valuesAfter_concat_eq_ok_iff hnode).mp h
    by_cases heq : i = id
    · -- It is the last node that has run.
      subst heq
      refine ⟨ids, [], _, before, rfl, hnode, hbefore, ?_⟩
      rw [valueAt_set_self (length_of_valuesAfter hbefore ▸ hid)]
      exact hvalue
    · -- It has run before, and the last node has filed its value elsewhere.
      have hi' : i ∈ ids := by simpa [heq] using hi
      obtain ⟨earlier, later, producer, before', rfl, hproducer, hbefore', hvalue'⟩ :=
        ih hnodup.of_append_left hlt' hbefore hi'
      refine ⟨earlier, later ++ [id], producer, before', by simp, hproducer, hbefore', ?_⟩
      rw [valueAt_set_of_ne heq]
      exact hvalue'

/-- A run that fails does so at the first node whose filter fails. -/
theorem exists_of_valuesAfter_eq_error {ids : List Nat} (hlt : ∀ id ∈ ids, id < p.nodes.length)
    {f : Failure} (h : p.valuesAfter ctx ids = .error f) :
    ∃ before id after node values e, ids = before ++ id :: after ∧ p.nodes[id]? = some node
      ∧ p.valuesAfter ctx before = .ok values ∧ node.outcome ctx values = .error e
      ∧ f = ⟨p.name, node.name, node.filter, e⟩ := by
  unfold valuesAfter at h
  rw [Collective.runAlone_run_foldlM] at h
  obtain ⟨before, id, after, values, rfl, hbefore, hfails⟩ := exists_of_foldlM_eq_error h
  -- A place without a node could not have failed.
  have hnode := List.getElem?_eq_getElem (hlt id (by simp))
  rw [runAlone_runNode hnode] at hfails
  split at hfails
  · exact absurd hfails (by simp)
  · rename_i e he
    refine ⟨before, id, after, _, values, e, rfl, hnode, ?_, he, (Except.error.inj hfails).symm⟩
    unfold valuesAfter
    rw [Collective.runAlone_run_foldlM]
    exact hbefore

end Plan

end MeshExpr
