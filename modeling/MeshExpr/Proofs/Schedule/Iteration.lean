import MeshExpr.Plan.Basic
import MeshExpr.Proofs.Schedule.Invariant

namespace MeshExpr

/-!
# The scheduler, iteration by iteration

The scheduler reads nothing where there is nothing at an index, and a counter that stands at zero
stays there when it is counted down. Here is the same scheduler with tables that it fills node by
node, and it stops at every index with nothing in its place, at every counter that would go below
zero, and when it has run more nodes than there are. For nodes that stand at their positions it
never stops in one of these ways, whether there are cycles or not: both schedulers are the same.

* `Tables.ofNodes_eq` — what is in the tables when they have been filled.
* `Scheduler.foldlM_checkedRelease_eq` — the consumers of a node are told without a slip.
* `Scheduler.Iterates` — the states at the beginning of each iteration, and `Scheduler.Kept` what is
  known of them.
* `Scheduler.checkedRun_eq` — the whole loop.
* `wellBehaved_of_placed` — all of this for the nodes of a plan.
-/

/-- How a scheduler stops that checks what it does. -/
inductive Slip where
  /-- There is nothing at an index. -/
  | outOfRange
  /-- A counter would go below zero. -/
  | underflow
  /-- There are still nodes to be run when as many have run as there are. -/
  | endless
deriving DecidableEq

/-! ### Tables -/

/-- The tables of a scheduler. -/
structure Tables where
  /-- For each node the number of ports that wait. -/
  pending : List Nat
  /-- For each node the nodes to be told when it has run. -/
  consumers : List (List Nat)
deriving DecidableEq

namespace Tables

/-- Notes that a port of one node is fed by another one. -/
def note (consumer : Nat) (t : Tables) (producer : Nat) : Except Slip Tables :=
  match t.pending[consumer]?, t.consumers[producer]? with
  | some waiting, some told =>
    .ok ⟨t.pending.set consumer (waiting + 1), t.consumers.set producer (told ++ [consumer])⟩
  | _, _ => .error .outOfRange

/-- The tables of some nodes, filled node by node and port by port. -/
def ofNodes (nodes : List PlannedNode) : Except Slip Tables :=
  nodes.foldlM (fun t node => node.inputs.foldlM (note node.id) t)
    ⟨List.replicate nodes.length 0, List.replicate nodes.length []⟩

/-- The tables for `size` nodes when the wires of the first of them have been noted. -/
def ofWiring (size : Nat) (w : Wiring) : Tables :=
  ⟨(List.range size).map fun node => (w.inputsOf node).length, (List.range size).map w.consumers⟩

variable {w : Wiring} {size : Nat}

/-- The inputs of a node when one more node is added at the end. -/
theorem inputsOf_concat (w : Wiring) (inputs : List Nat) (node : Nat) :
    Wiring.inputsOf (w ++ [inputs]) node = if node = w.length then inputs else w.inputsOf node := by
  unfold Wiring.inputsOf
  rcases Nat.lt_trichotomy node w.length with hlt | rfl | hgt
  · rw [List.getElem?_append_left hlt, if_neg (Nat.ne_of_lt hlt)]
  · simp
  · have hout : (w ++ [inputs]).length ≤ node := by
      rw [List.length_append]
      exact hgt
    rw [List.getElem?_eq_none hout, List.getElem?_eq_none hgt.le, if_neg (Nat.ne_of_gt hgt)]

/-- The consumers of a node when one more is added: as often as it is an input of it. -/
theorem consumers_concat (w : Wiring) (inputs : List Nat) (node : Nat) :
    Wiring.consumers (w ++ [inputs]) node
      = w.consumers node ++ List.replicate (inputs.count node) w.length := by
  unfold Wiring.consumers
  rw [List.zipIdx_append, List.flatMap_append]
  simp

/-- A node whose ports are still to be noted changes nothing. -/
theorem ofWiring_concat_nil (size : Nat) (w : Wiring) :
    ofWiring size (w ++ [[]]) = ofWiring size w := by
  unfold ofWiring
  congr 1
  · refine List.map_congr_left fun node _ => ?_
    rw [inputsOf_concat]
    split
    · rename_i hnode
      rw [Wiring.inputsOf_eq_nil hnode.ge]
    · rfl
  · refine List.map_congr_left fun node _ => ?_
    rw [consumers_concat]
    simp

/-- A table in which one entry is set. -/
theorem set_map_range {α : Type} {f g : Nat → α} {i : Nat} (hsame : ∀ j, j ≠ i → f j = g j) :
    ((List.range size).map f).set i (g i) = (List.range size).map g := by
  refine List.ext_getElem (by simp) fun j hj hj' => ?_
  rw [List.getElem_set]
  split
  · rename_i hij
    simp [hij]
  · rename_i hij
    simp [hsame j (Ne.symm hij)]

/-- One more port of the last node is noted. -/
theorem note_eq {fed : List Nat} {producer : Nat} (hsize : w.length < size)
    (hproducer : producer < size) :
    note w.length (ofWiring size (w ++ [fed])) producer
      = .ok (ofWiring size (w ++ [fed ++ [producer]])) := by
  have hpending : (ofWiring size (w ++ [fed])).pending[w.length]? = some fed.length := by
    simp [ofWiring, hsize, inputsOf_concat]
  have hconsumers : (ofWiring size (w ++ [fed])).consumers[producer]?
      = some (Wiring.consumers (w ++ [fed]) producer) := by
    simp [ofWiring, hproducer]
  have hcount : fed.length + 1
      = (Wiring.inputsOf (w ++ [fed ++ [producer]]) w.length).length := by
    simp [inputsOf_concat]
  -- The last node is told once more, behind all that are told before it.
  have htold : Wiring.consumers (w ++ [fed]) producer ++ [w.length]
      = Wiring.consumers (w ++ [fed ++ [producer]]) producer := by
    simp [consumers_concat, List.count_append, List.replicate_succ']
  unfold note
  rw [hpending, hconsumers]
  dsimp only
  rw [hcount, htold]
  unfold ofWiring
  rw [set_map_range (f := fun node => (Wiring.inputsOf (w ++ [fed]) node).length)
    (g := fun node => (Wiring.inputsOf (w ++ [fed ++ [producer]]) node).length),
    set_map_range (f := Wiring.consumers (w ++ [fed]))
    (g := Wiring.consumers (w ++ [fed ++ [producer]]))]
  · intro node hnode
    simp [consumers_concat, List.count_append, hnode.symm]
  · intro node hnode
    simp [inputsOf_concat, hnode]

/-- The ports of a node are noted one by one. -/
theorem foldlM_note_eq {inputs : List Nat} (hsize : w.length < size)
    (hinputs : ∀ i ∈ inputs, i < size) (fed : List Nat) :
    inputs.foldlM (note w.length) (ofWiring size (w ++ [fed]))
      = .ok (ofWiring size (w ++ [fed ++ inputs])) := by
  -- In each step one port moves from those that are left to those that have been noted.
  induction inputs generalizing fed with
  | nil => simp [pure, Except.pure]
  | cons i rest ih =>
    rw [List.foldlM_cons, note_eq hsize (hinputs i List.mem_cons_self)]
    have hrest := ih (fun j hj => hinputs j (List.mem_cons_of_mem _ hj)) (fed ++ [i])
    rw [List.append_assoc] at hrest
    exact hrest

/-- And so are those of one node after the other. -/
theorem foldlM_nodes_eq {nodes : List PlannedNode} (hsize : w.length + nodes.length = size)
    (hid : ∀ i node, nodes[i]? = some node → node.id = w.length + i)
    (hinputs : ∀ node ∈ nodes, ∀ i ∈ node.inputs, i < size) :
    nodes.foldlM (fun t node => node.inputs.foldlM (note node.id) t) (ofWiring size w)
      = .ok (ofWiring size (w ++ nodes.map (·.inputs))) := by
  -- The wiring that has been noted is one node longer after each step.
  induction nodes generalizing w with
  | nil => simp [pure, Except.pure]
  | cons node rest ih =>
    have hfirst : node.id = w.length := hid 0 node rfl
    rw [List.length_cons] at hsize
    have hnode := foldlM_note_eq (by omega) (hinputs node List.mem_cons_self) [] (w := w)
    rw [ofWiring_concat_nil, List.nil_append] at hnode
    have hrest := ih (w := w ++ [node.inputs]) (by simp; omega)
      (fun i later hlater => by
        rw [hid (i + 1) later hlater]
        simp
        omega)
      fun later hlater => hinputs later (List.mem_cons_of_mem _ hlater)
    rw [List.append_assoc] at hrest
    rw [List.foldlM_cons, hfirst, hnode]
    exact hrest

end Tables

/-- The nodes of a list stand at their positions, and their ports are fed by nodes of the list. -/
structure Placed (nodes : List PlannedNode) : Prop where
  id_eq : ∀ (i : Nat) node, nodes[i]? = some node → node.id = i
  inputs_lt : ∀ node ∈ nodes, ∀ i ∈ node.inputs, i < nodes.length

/-- The wiring of some nodes. -/
def wiringOf (nodes : List PlannedNode) : Wiring := nodes.map (·.inputs)

/-- **The tables** hold the number of ports of each node and its consumers. -/
theorem Tables.ofNodes_eq {nodes : List PlannedNode} (h : Placed nodes) :
    Tables.ofNodes nodes = .ok (Tables.ofWiring nodes.length (wiringOf nodes)) := by
  have hstart : Tables.ofWiring nodes.length []
      = ⟨List.replicate nodes.length 0, List.replicate nodes.length []⟩ := by
    have hconsumers : Wiring.consumers [] = fun _ => [] := rfl
    simp [ofWiring, Wiring.inputsOf, hconsumers]
  unfold ofNodes
  rw [← hstart]
  refine foldlM_nodes_eq (w := []) (by simp) (fun i node hnode => ?_) h.inputs_lt
  simpa using h.id_eq i node hnode

namespace Scheduler

variable {w : Wiring} {s s' : Scheduler} {node : Nat} {ready : List Nat}

/-! ### One iteration -/

/-- Tells a node that one of its ports no longer waits. -/
def checkedRelease (s : Scheduler) (consumer : Nat) : Except Slip Scheduler :=
  match s.pending[consumer]? with
  | none => .error .outOfRange
  | some 0 => .error .underflow
  | some (waiting + 1) => .ok
    { s with
      pending := s.pending.set consumer waiting
      ready := if waiting = 0 then insertIncreasing consumer s.ready else s.ready }

/-- Runs the first ready node, if there is one. -/
def checkedNext (consumers : List (List Nat)) (s : Scheduler) : Except Slip (Option Scheduler) :=
  match s.ready with
  | [] => .ok none
  | node :: ready => match consumers[node]? with
    | none => .error .outOfRange
    | some told =>
      some <$> told.foldlM checkedRelease { s with ready, order := s.order ++ [node] }

/-- Where a node waits for something, the check passes and the release is the plain one. -/
theorem checkedRelease_eq {c waiting : Nat} (h : s.pending[c]? = some (waiting + 1)) :
    s.checkedRelease c = .ok (s.release c) := by
  obtain ⟨hlt, hc⟩ := List.getElem?_eq_some_iff.mp h
  have hpending : s.pending.modify c (· - 1) = s.pending.set c waiting := by
    rw [List.modify_eq_set_getElem?, h]
    rfl
  unfold checkedRelease release
  rw [h, hpending]
  simp [hlt]

/-- **No slip.** If none of the consumers of a node is told more often than it has waiting ports,
    every counter that is counted down is there and is not zero. -/
theorem foldlM_checkedRelease_eq {cs : List Nat} (h : s.Room cs) :
    cs.foldlM checkedRelease s = .ok (cs.foldl release s) := by
  -- There is still room for the consumers that are left, as `Room.release` says.
  induction cs generalizing s with
  | nil => rfl
  | cons c rest ih =>
    obtain ⟨n, hn, hle⟩ := h c List.mem_cons_self
    rw [List.count_cons_self] at hle
    obtain ⟨waiting, rfl⟩ : ∃ waiting, n = waiting + 1 := ⟨n - 1, by omega⟩
    rw [List.foldlM_cons, List.foldl_cons, checkedRelease_eq hn]
    exact ih h.release

/-- **One iteration.** With the consumers of each node in its table, the scheduler runs the next
    node without a slip. -/
theorem checkedNext_eq (h : s.Sound w) :
    s.checkedNext (Tables.ofWiring w.length w).consumers = .ok (s.next? w) := by
  unfold checkedNext next?
  cases hready : s.ready with
  | nil => rfl
  | cons node ready =>
    obtain ⟨hlt, hnew, -⟩ := (h.mem_ready node).mp (by simp [hready])
    have htold : (Tables.ofWiring w.length w).consumers[node]? = some (w.consumers node) := by
      simp [Tables.ofWiring, hlt]
    -- No node is told more often than it waits, so that no counter goes below zero.
    have hroom : Room { s with ready, order := s.order ++ [node] } (w.consumers node) :=
      h.room hnew
    dsimp only
    rw [htold]
    dsimp only
    rw [foldlM_checkedRelease_eq hroom]
    rfl

/-! ### All iterations -/

/-- The states of a scheduler at the beginning of an iteration, with the number of nodes that have
    run by then. -/
inductive Iterates (w : Wiring) : Nat → Scheduler → Prop where
  | start : Iterates w 0 (start w)
  | next {k : Nat} {s s' : Scheduler} (before : Iterates w k s) (step : s.next? w = some s') :
      Iterates w (k + 1) s'

/-- What is known of a scheduler at the beginning of an iteration. -/
structure Kept (w : Wiring) (k : Nat) (s : Scheduler) : Prop where
  length_pending : s.pending.length = w.length
  /-- A counter is the number of ports whose node is not in the order. -/
  pending : ∀ node < w.length,
    s.pending[node]? = some ((w.inputsOf node).countP (· ∉ s.order))
  /-- Ready are the nodes that are not in the order and whose counter is zero. -/
  ready : ∀ node, node ∈ s.ready ↔ s.pending[node]? = some 0 ∧ node ∉ s.order
  nodup : s.order.Nodup
  lt_length : ∀ node ∈ s.order, node < w.length
  length_order : s.order.length = k
  le_length : k ≤ w.length

/-- Every iteration reaches a sound state. -/
theorem Iterates.sound {k : Nat} (h : Iterates w k s) : s.Sound w := by
  induction h with
  | start => exact sound_start w
  | next _ step ih => exact ih.next step

/-- Every iteration takes one node. -/
theorem Iterates.length_order {k : Nat} (h : Iterates w k s) : s.order.length = k := by
  induction h with
  | start => rfl
  | next _ step ih => rw [length_order_next step, ih]

/-- So there are at most as many as nodes. -/
theorem Sound.length_order_le (h : s.Sound w) : s.order.length ≤ w.length := by
  simpa using h.order_subperm.length_le

/-- The ready nodes are those that wait for nothing and have not been taken. -/
theorem Sound.mem_ready_iff (h : s.Sound w) :
    node ∈ s.ready ↔ s.pending[node]? = some 0 ∧ node ∉ s.order := by
  rw [h.mem_ready]
  by_cases hlt : node < w.length
  · rw [h.getElem?_pending hlt, Option.some.injEq, List.countP_eq_zero]
    simp [hlt, and_comm]
  · have hout : s.pending[node]? = none := by
      rw [List.getElem?_eq_none_iff, h.pending_eq, List.length_map]
      exact Nat.le_of_not_lt hlt
    simp [hlt, hout]

/-- **Every iteration** begins with counters and ready nodes that are what they are meant to be. -/
theorem Iterates.kept {k : Nat} (h : Iterates w k s) : Kept w k s where
  length_pending := by rw [h.sound.pending_eq, List.length_map]
  pending _ hlt := h.sound.getElem?_pending hlt
  ready _ := h.sound.mem_ready_iff
  nodup := h.sound.order_nodup
  lt_length := h.sound.order_lt
  length_order := h.length_order
  le_length := h.length_order ▸ h.sound.length_order_le

/-! ### The loop -/

/-- Runs nodes until none is ready, and at most `room` of them. -/
def checkedRun (consumers : List (List Nat)) : Nat → Scheduler → Except Slip Scheduler
  | 0, s => if s.ready.isEmpty then .ok s else .error .endless
  | room + 1, s => do
    match ← s.checkedNext consumers with
    | none => return s
    | some s => checkedRun consumers room s

/-- **The loop** makes no slip, and ends in one of its iterations with no node ready. -/
theorem checkedRun_eq {room k : Nat} (h : Iterates w k s) (hroom : k + room = w.length) :
    checkedRun (Tables.ofWiring w.length w).consumers room s = .ok (run w room s)
      ∧ (run w room s).ready = [] ∧ ∃ last, Iterates w last (run w room s) := by
  induction room generalizing s k with
  | zero =>
    -- All nodes have run, so none is ready.
    have hready : s.ready = [] := by
      refine List.eq_nil_iff_forall_not_mem.mpr fun node hnode => ?_
      obtain ⟨hlt, hnew, -⟩ := (h.sound.mem_ready node).mp hnode
      have hall := h.sound.perm_range (by rw [h.length_order]; exact hroom)
      exact hnew (hall.mem_iff.mpr (List.mem_range.mpr hlt))
    exact ⟨by simp [checkedRun, run, hready], hready, k, h⟩
  | succ room ih =>
    unfold checkedRun run
    rw [checkedNext_eq h.sound]
    cases hstep : s.next? w with
    | none =>
      refine ⟨rfl, ?_, k, h⟩
      unfold next? at hstep
      cases hready : s.ready with
      | nil => rfl
      | cons node ready => simp [hready] at hstep
    | some s' => exact ih (h.next hstep) (by omega)

end Scheduler

/-! ### The whole schedule -/

open Scheduler

/-- Chooses a node if its counter passes a test. -/
def choose (test : Nat → Bool) (pending : List Nat) (chosen : List Nat) (node : PlannedNode) :
    Except Slip (List Nat) :=
  match pending[node.id]? with
  | none => .error .outOfRange
  | some waiting => .ok (if test waiting then chosen ++ [node.id] else chosen)

/-- The nodes whose counters pass a test. -/
def select (test : Nat → Bool) (pending : List Nat) (nodes : List PlannedNode) :
    Except Slip (List Nat) :=
  nodes.foldlM (choose test pending) []

/-- The order of execution, or the nodes that wait for each other. -/
def checkedSchedule (nodes : List PlannedNode) : Except Slip (Except (List Nat) (List Nat)) := do
  let tables ← Tables.ofNodes nodes
  let ready ← select (· == 0) tables.pending nodes
  let final ← checkedRun tables.consumers nodes.length ⟨tables.pending, ready, []⟩
  if final.order.length = nodes.length then return .ok final.order
  else return .error (← select (· != 0) final.pending nodes)

/-- Nodes that stand at their own numbers are numbered from zero. -/
theorem map_id_eq_range {nodes : List PlannedNode} (h : Placed nodes) :
    nodes.map (·.id) = List.range nodes.length := by
  refine List.ext_getElem (by simp) fun i hi hi' => ?_
  simpa using h.id_eq i _ (List.getElem?_eq_getElem (by simpa using hi))

/-- The counters of nodes that are in the table are all looked at. -/
theorem foldlM_choose_eq (test : Nat → Bool) {pending : List Nat} {nodes : List PlannedNode}
    (h : ∀ node ∈ nodes, node.id < pending.length) (chosen : List Nat) :
    nodes.foldlM (choose test pending) chosen
      = .ok (chosen ++ (nodes.map (·.id)).filter fun i => pending[i]?.any test) := by
  -- Along the nodes, with what has been chosen so far.
  induction nodes generalizing chosen with
  | nil => simp [pure, Except.pure]
  | cons node rest ih =>
    obtain ⟨waiting, hentry⟩ : ∃ waiting, pending[node.id]? = some waiting :=
      ⟨_, List.getElem?_eq_getElem (h node List.mem_cons_self)⟩
    have hfirst : choose test pending chosen node
        = .ok (chosen ++ [node.id].filter fun i => pending[i]?.any test) := by
      unfold choose
      rw [List.filter_singleton, hentry]
      by_cases htest : test waiting <;> simp [htest]
    rw [List.foldlM_cons, hfirst]
    show rest.foldlM (choose test pending) _ = _
    rw [ih fun later hlater => h later (List.mem_cons_of_mem _ hlater), List.append_assoc,
      ← List.filter_append]
    rfl

/-- So a selection by what is pending is one by number. -/
theorem select_eq {nodes : List PlannedNode} (h : Placed nodes) {pending : List Nat}
    (hlength : pending.length = nodes.length) (test : Nat → Bool) :
    select test pending nodes
      = .ok ((List.range nodes.length).filter fun i => pending[i]?.any test) := by
  rw [← map_id_eq_range h]
  refine foldlM_choose_eq test (fun node hnode => ?_) []
  obtain ⟨i, hi⟩ := List.mem_iff_getElem?.mp hnode
  rw [h.id_eq i node hi, hlength]
  exact (List.getElem?_eq_some_iff.mp hi).1

/-- **The whole schedule** is made without a slip. -/
theorem checkedSchedule_eq {nodes : List PlannedNode} (h : Placed nodes) :
    checkedSchedule nodes = .ok (schedule (wiringOf nodes)) := by
  set w := wiringOf nodes with hw
  have hlength : w.length = nodes.length := List.length_map _
  have hpending : (Tables.ofWiring nodes.length w).pending = (start w).pending := by
    refine List.ext_getElem (by simp [Tables.ofWiring, start, hlength]) fun i hi hi' => ?_
    have hlt : i < w.length := by simpa [start] using hi'
    simp [Tables.ofWiring, start, Wiring.inputsOf, hlt]
  -- The two choices that the schedule makes: who is ready at first, and who waits at last.
  have hready : ∀ pending : List Nat, pending.length = nodes.length →
      select (· == 0) pending nodes
        = .ok ((List.range w.length).filter fun i => pending[i]? == some 0) := by
    intro pending hpending
    rw [select_eq h hpending, hlength]
    congr 2
    funext i
    cases pending[i]? <;> rfl
  have hstuck : ∀ pending : List Nat, pending.length = nodes.length →
      select (· != 0) pending nodes
        = .ok ((List.range pending.length).filter fun i => pending[i]? != some 0) := by
    intro pending hpending
    rw [select_eq h hpending, hpending]
    congr 1
    refine List.filter_congr fun i hi => ?_
    rw [List.getElem?_eq_getElem (hpending ▸ List.mem_range.mp hi)]
    rfl
  obtain ⟨hrun, -, last, hlast⟩ := checkedRun_eq (.start : Iterates w 0 (start w)) (Nat.zero_add _)
  unfold checkedSchedule schedule
  rw [Tables.ofNodes_eq h]
  show select _ _ _ >>= _ = _
  rw [hpending, hready _ (by simp [start, hlength])]
  show checkedRun _ _ (start w) >>= _ = _
  rw [← hlength, hrun]
  show (if _ then _ else _) = _
  dsimp only
  split
  · rfl
  · rw [hstuck _ (by rw [hlast.kept.length_pending, hlength])]
    rfl

/-- What is so of the scheduler with some nodes. -/
structure WellBehaved (nodes : List PlannedNode) : Prop where
  /-- The tables are filled without a slip. -/
  tables : Tables.ofNodes nodes = .ok (.ofWiring nodes.length (wiringOf nodes))
  /-- Counters and ready nodes are what they are meant to be, and no node runs twice. -/
  kept : ∀ k s, Iterates (wiringOf nodes) k s → Kept (wiringOf nodes) k s
  /-- No iteration makes a slip. -/
  next : ∀ k s, Iterates (wiringOf nodes) k s →
    s.checkedNext (Tables.ofWiring nodes.length (wiringOf nodes)).consumers
      = .ok (s.next? (wiringOf nodes))
  /-- When at most as many nodes have run as there are, none is ready. -/
  ends : ∃ k ≤ nodes.length, ∃ s, Iterates (wiringOf nodes) k s ∧ s.ready = []
  schedule : checkedSchedule nodes = .ok (schedule (wiringOf nodes))

/-- **The scheduler is well behaved** with all nodes that stand at their positions, however they
    are wired. -/
theorem wellBehaved_of_placed {nodes : List PlannedNode} (h : Placed nodes) :
    WellBehaved nodes := by
  have hlength : (wiringOf nodes).length = nodes.length := List.length_map _
  refine ⟨Tables.ofNodes_eq h, fun k s hs => hs.kept, fun k s hs => ?_, ?_, checkedSchedule_eq h⟩
  · rw [← hlength]
    exact checkedNext_eq hs.sound
  · obtain ⟨-, hready, k, hlast⟩ :=
      checkedRun_eq (.start : Iterates (wiringOf nodes) 0 _) (Nat.zero_add _)
    exact ⟨k, hlength ▸ hlast.kept.le_length, _, hlast, hready⟩

/-- A sum that is fed by itself, and what depends on it. -/
def tangled : List PlannedNode :=
  [⟨0, "one", .integer, .int 1, []⟩, ⟨1, "two", .binaryOp, .op .add, [0, 0]⟩,
    ⟨2, "sum", .binaryOp, .op .add, [2, 1]⟩, ⟨3, "product", .binaryOp, .op .mul, [1, 2]⟩]

/-- With a node that feeds itself and one that feeds two slots of another, the scheduler makes no
    slip and stops at the cycle. -/
theorem wellBehaved_of_tangled :
    Placed tangled ∧ WellBehaved tangled ∧ schedule (wiringOf tangled) = .error [2, 3] := by
  have hplaced : Placed tangled := by
    refine ⟨fun i node hnode => ?_, by decide⟩
    obtain ⟨hi, rfl⟩ := List.getElem?_eq_some_iff.mp hnode
    revert i
    decide
  exact ⟨hplaced, wellBehaved_of_placed hplaced, by decide⟩

end MeshExpr
