import MeshExpr.Eval.Plan
import MeshExpr.Proofs.Mesh.Bins
import MeshExpr.Proofs.Planning.Image

namespace MeshExpr

open Collective

/-!
# Every index has something in its place

The evaluation of a plan takes a node without a value for empty, and leaves out what does not fit
into a list. Here the same evaluation stops at every index that has nothing in its place, and it
turns out that it never does for the plan of a graph: both evaluations are the same program.

* `Plan.evaluateIndexed` — the evaluation that checks every index.
* `Indexed.arguments_eq` — the arguments of a node, put one by one into a row of places.
* `Graph.Image.evaluateIndexed_eq` — the two evaluations of a plan.
* `Mesh.countIndexed_eq` and `Reduction.length_of_readAnswer` — the indices within a reduction.
-/

/-! ### Lists with indices that are checked -/

/-- How an evaluation stops that checks every index. -/
inductive Stop where
  /-- There is nothing at an index. -/
  | outOfRange
  | failed (failure : Failure)

/-- A program that checks every index. -/
abbrev Indexed (α : Type) := ExceptT Stop Collective α

namespace Indexed

variable {α : Type}

/-- What is at an index. -/
def get (l : List α) (i : Nat) : Indexed α :=
  match l[i]? with
  | some a => return a
  | none => throw .outOfRange

/-- Puts something at an index. -/
def put (l : List α) (i : Nat) (a : α) : Indexed (List α) :=
  if i < l.length then return l.set i a else throw .outOfRange

/-- The part of a list in front of an index. -/
def before (l : List α) (i : Nat) : Indexed (List α) :=
  if i ≤ l.length then return l.take i else throw .outOfRange

/-- How many arguments there is room for. -/
def maxInputs : Nat := 4

/-- Puts the value of a node into the place of a port. -/
def fill (values row : List Value) (producer slot : Nat) : Indexed (List Value) := do
  put row slot (← get values producer)

/-- The arguments of a node: a row of empty places, filled from the front. -/
def arguments (values : List Value) (inputs : List Nat) : Indexed Inputs := do
  let row ← inputs.zipIdx.foldlM (fun row (producer, slot) => fill values row producer slot)
    (List.replicate maxInputs Value.empty)
  before row inputs.length

/-- An index that finds something succeeds. -/
theorem get_eq {l : List α} {i : Nat} {a : α} (h : l[i]? = some a) : get l i = pure a := by
  unfold get
  rw [h]

/-- So does a place that is there. -/
theorem put_eq {l : List α} {i : Nat} (h : i < l.length) (a : α) : put l i a = pure (l.set i a) :=
  if_pos h

/-- And a length that does not go beyond the list. -/
theorem before_eq {l : List α} {i : Nat} (h : i ≤ l.length) : before l i = pure (l.take i) :=
  if_pos h

/-- One slot of a row gets the value of its producer. -/
theorem fill_eq {values row : List Value} {producer slot : Nat}
    (hproducer : producer < values.length) (hslot : slot < row.length) :
    fill values row producer slot = pure (row.set slot (Plan.valueAt values producer)) := by
  have hvalue : values[producer]? = some (Plan.valueAt values producer) := by
    simp [Plan.valueAt, hproducer]
  unfold fill
  rw [get_eq hvalue, pure_bind, put_eq hslot]

/-- The places that are left are filled one by one. -/
theorem foldlM_fill_eq {values : List Value} {inputs : List Nat}
    (h : ∀ i ∈ inputs, i < values.length) (filled : List Value) (free : Nat) :
    (inputs.zipIdx filled.length).foldlM (fun row (producer, slot) => fill values row producer slot)
        (filled ++ List.replicate (inputs.length + free) Value.empty)
      = pure (filled ++ inputs.map (Plan.valueAt values) ++ List.replicate free Value.empty) := by
  -- The row always has as many places left as there are inputs to come, and `free` more.
  induction inputs generalizing filled with
  | nil => simp
  | cons i rest ih =>
    have hset : (filled ++ List.replicate ((i :: rest).length + free) Value.empty).set filled.length
        (Plan.valueAt values i)
        = filled ++ [Plan.valueAt values i] ++ List.replicate (rest.length + free) Value.empty := by
      rw [List.length_cons, Nat.add_right_comm, List.replicate_succ]
      simp
    have hrest := ih (fun j hj => h j (List.mem_cons_of_mem _ hj))
      (filled ++ [Plan.valueAt values i])
    rw [List.length_append] at hrest
    rw [List.zipIdx_cons, List.foldlM_cons]
    dsimp only
    rw [fill_eq (h i List.mem_cons_self) (by simp), pure_bind, hset, List.map_cons]
    simpa using hrest

/-- The arguments of a node are the values of the nodes that feed it, if there is room for them. -/
theorem arguments_eq {values : List Value} {inputs : List Nat}
    (hlt : ∀ i ∈ inputs, i < values.length) (hroom : inputs.length ≤ maxInputs) :
    arguments values inputs = pure (inputs.map (Plan.valueAt values)) := by
  obtain ⟨free, hfree⟩ := Nat.exists_eq_add_of_le hroom
  have hrow := foldlM_fill_eq hlt [] free
  rw [← hfree] at hrow
  unfold arguments
  simp only [List.nil_append, List.length_nil] at hrow
  rw [hrow, pure_bind, before_eq (by simp)]
  simp

end Indexed

/-- No filter has more ports than a row has slots. -/
theorem Filter.length_ports_le (f : Filter) : f.ports.length ≤ Indexed.maxInputs := by
  cases f <;> decide

/-! ### Errors under another name -/

section Adapt

variable {α β ε ε' ε'' : Type}

/-- Errors that are made into others, as a map of the results. -/
theorem run_adapt (x : ExceptT ε Collective α) (g : ε → ε') :
    (x.adapt g).run = Except.mapError g <$> x.run :=
  rfl

/-- It does not matter whether the errors of two steps are made into others together or one by one.
    -/
theorem adapt_bind (x : ExceptT ε Collective α) (f : α → ExceptT ε Collective β) (g : ε → ε') :
    (x >>= f).adapt g = x.adapt g >>= fun a => (f a).adapt g := by
  refine ExceptT.ext ?_
  rw [run_adapt, ExceptT.run_bind, ExceptT.run_bind, run_adapt, map_bind, bind_map_left]
  refine congrArg _ (funext fun result => ?_)
  cases result <;> rfl

/-- Errors that are made into others twice. -/
theorem adapt_adapt (x : ExceptT ε Collective α) (f : ε → ε') (g : ε' → ε'') :
    (x.adapt f).adapt g = x.adapt (g ∘ f) := by
  refine ExceptT.ext ?_
  rw [run_adapt, run_adapt, run_adapt, Functor.map_map]
  refine congrArg (Functor.map · x.run) (funext fun result => ?_)
  cases result <;> rfl

end Adapt

/-! ### Plans -/

namespace Plan

/-- Computes a node and files its value. -/
def runNodeIndexed (p : Plan) (ctx : Context) (values : List Value) (id : Nat) :
    Indexed (List Value) := do
  let node ← Indexed.get p.nodes id
  let inputs ← Indexed.arguments values node.inputs
  let value ← (node.filter.compute ctx inputs node.param).adapt fun error =>
    .failed ⟨p.name, node.name, node.filter, error⟩
  Indexed.put values id value

/-- The value of a plan. -/
def evaluateIndexed (p : Plan) (ctx : Context) : Indexed Value := do
  let values ← p.order.foldlM (p.runNodeIndexed ctx) (List.replicate p.nodes.length Value.empty)
  Indexed.get values p.output

variable {p : Plan} {ctx : Context}

/-- A node whose index and arguments are in range runs its filter, and its value is filed. -/
theorem runNodeIndexed_eq {values : List Value} {id : Nat} {node : PlannedNode}
    (hnode : p.nodes[id]? = some node) (hid : id < values.length)
    (hinputs : ∀ i ∈ node.inputs, i < values.length)
    (hroom : node.inputs.length ≤ Indexed.maxInputs) :
    p.runNodeIndexed ctx values id = (node.filter.compute ctx (node.inputs.map (valueAt values))
        node.param).adapt (fun error => .failed ⟨p.name, node.name, node.filter, error⟩) >>=
      fun value => pure (values.set id value) := by
  unfold runNodeIndexed
  rw [Indexed.get_eq hnode, pure_bind, Indexed.arguments_eq hinputs hroom, pure_bind]
  exact congrArg _ (funext fun value => Indexed.put_eq hid value)

/-- A node whose value is kept, with its error as that of a checked evaluation. -/
theorem adapt_runNode {values : List Value} {id : Nat} {node : PlannedNode}
    (hnode : p.nodes[id]? = some node) :
    (p.runNode ctx values id).adapt Stop.failed = (node.filter.compute ctx
        (node.inputs.map (valueAt values)) node.param).adapt
          (fun error => .failed ⟨p.name, node.name, node.filter, error⟩) >>=
      fun value => pure (values.set id value) := by
  unfold runNode
  rw [hnode]
  dsimp only
  rw [adapt_bind, adapt_adapt]
  rfl

end Plan

namespace Graph.Image

variable {g : Graph} {p : Plan} {m : Manifest} {ctx : Context}

/-- Every entry of the order is a node. -/
theorem lt_of_mem_order (h : g.Image p m) {id : Nat} (hid : id ∈ p.order) :
    id < p.nodes.length := by
  have hlt := h.order.mem_iff.mp hid
  rwa [Plan.wiring, List.length_map] at hlt

/-- **The nodes that are left** run as before, one after the other, and so does what follows them,
    as long as it can count on a value for each node. -/
theorem foldlM_runNodeIndexed_eq (h : g.Image p m) {α : Type} {next next' : List Value → Indexed α}
    (hnext : ∀ values, values.length = p.nodes.length → next values = next' values)
    {ids : List Nat} (hids : ∀ id ∈ ids, id < p.nodes.length) {values : List Value}
    (hvalues : values.length = p.nodes.length) :
    ids.foldlM (p.runNodeIndexed ctx) values >>= next
      = (ids.foldlM (p.runNode ctx) values).adapt .failed >>= next' := by
  induction ids generalizing values with
  | nil => exact hnext values hvalues
  | cons id rest ih =>
    have hid := hids id List.mem_cons_self
    have hnode := List.getElem?_eq_getElem hid
    have hmem := List.getElem_mem hid
    have hroom : (p.nodes[id]).inputs.length ≤ Indexed.maxInputs :=
      h.length_inputs _ hmem ▸ (p.nodes[id]).filter.length_ports_le
    rw [List.foldlM_cons, List.foldlM_cons, adapt_bind, Plan.adapt_runNode hnode,
      Plan.runNodeIndexed_eq hnode (hvalues ▸ hid) (hvalues ▸ h.inputs_lt _ hmem) hroom]
    simp only [bind_assoc, pure_bind]
    have hrest : ∀ id ∈ rest, id < p.nodes.length := fun id hid =>
      hids id (List.mem_cons_of_mem _ hid)
    -- To file a value does not change how many there are.
    refine congrArg _ (funext fun value => ih hrest ?_)
    rw [List.length_set, hvalues]

/-- **Both evaluations are the same.** Whatever the exchanges answer, the evaluation of a plan never
    finds an index with nothing in its place. -/
theorem evaluateIndexed_eq (h : g.Image p m) :
    p.evaluateIndexed ctx = (p.evaluate ctx).adapt .failed := by
  have houtput : p.output < p.nodes.length := by
    rw [h.length_nodes, ← List.length_map]
    exact (List.getElem?_eq_some_iff.mp h.output).1
  unfold Plan.evaluateIndexed Plan.evaluate
  rw [adapt_bind]
  refine h.foldlM_runNodeIndexed_eq (fun values hvalues => ?_) (fun id hid => h.lt_of_mem_order hid)
    List.length_replicate
  exact Indexed.get_eq (by simp [Plan.valueAt, hvalues, houtput])

end Graph.Image

/-- A plan that no graph has: its node takes the argument from a node that is not there. -/
example : ((⟨"gap", [⟨0, "length", .magnitude, .nothing, [1]⟩], [0], 0⟩ : Plan).evaluateIndexed
    {}).run.runAlone = .error .outOfRange := by rfl

/-! ### Reductions -/

namespace Mesh

/-- How often each index below `bins` stands in a list, each index with a check. -/
def countIndexed (bins : Nat) (indices : List Nat) : Indexed (List Float) :=
  indices.foldlM (fun counts i => do Indexed.put counts i ((← Indexed.get counts i) + 1))
    (List.replicate bins 0)

/-- Counting finds a bin at every index that lies below the number of bins. -/
theorem countIndexed_eq {bins : Nat} {indices : List Nat} (h : ∀ i ∈ indices, i < bins) :
    countIndexed bins indices = pure (count bins indices) := by
  induction indices using List.reverseRecOn with
  | nil => simp [countIndexed, count]
  | append_singleton indices i ih =>
    have hi : i < (count bins indices).length := by
      rw [length_count]
      exact h i (by simp)
    have hbefore := ih fun j hj => h j (List.mem_append_left _ hj)
    unfold countIndexed at hbefore ⊢
    rw [List.foldlM_append, hbefore, pure_bind, List.foldlM_cons,
      Indexed.get_eq (List.getElem?_eq_getElem hi), pure_bind, Indexed.put_eq hi, pure_bind,
      count_concat, List.modify_eq_set_getElem?, List.getElem?_eq_getElem hi]
    rfl

/-- The bin of a sample is one of the bins. -/
theorem lt_of_mem_binIndices {m : Mesh} {field : String} {decl : FieldDecl} {bins i : Nat}
    {minVal maxVal : Float} (h : i ∈ m.binIndices field decl bins minVal maxVal) : i < bins := by
  obtain ⟨x, -, hx⟩ := List.mem_filterMap.mp h
  refine lt_of_binIndex? (Nat.pos_of_ne_zero ?_) hx
  rintro rfl
  simp [binIndex?] at hx

end Mesh

/-- Every part that a reduction reads has the agreed length. -/
theorem Reduction.length_of_readAnswer {width : Nat} {answer : Answer} {parts : List (List Float)}
    (h : readAnswer width answer = .ok parts) {part : List Float} (hpart : part ∈ parts) :
    part.length = width := by
  cases answer with
  | error reason => exact absurd h (by simp [readAnswer])
  | ok given =>
    obtain ⟨part', -, hsame⟩ := exists_of_forall₂ (mapM_eq_ok_iff.mp h).flip hpart
    unfold expectWidth at hsame
    split at hsame
    · rename_i hlength
      exact Except.ok.inj hsame ▸ hlength
    · exact absurd hsame (by simp)

end MeshExpr
