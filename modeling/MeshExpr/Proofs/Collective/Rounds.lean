import Mathlib.Data.List.Induction
import MeshExpr.Collective.Exchange
import MeshExpr.Proofs.Checked

namespace MeshExpr.Exchange

/-!
# Rounds in shared memory do not mix

The ranks of a group take their steps in any order. Each rank passes the barrier twice in a round,
and the barrier opens only when all ranks wait at it, so no rank is ahead of another one by more
than one opening. Between the two openings of a round all slots therefore hold the contributions to
this round, and a slot is written again only after the second one.

* `Timely` — how often each rank has passed the barrier, and how often it has opened.
* `Faithful` — what each rank has stored and copied.
* `Timely.step` and `Faithful.step` — every step of every rank preserves both.
* `roundsApart_of_run` — what a group has exchanged after any steps of its ranks.
* `exists_step?_of_run` — a group does not get stuck.
-/

variable {e e' : Exchange} {rank rank' : Rank} {i : Nat}
  {contributions : List (List (List Float))}

/-! ### Steps -/

/-- What a rank does in a step that it takes in a group, and what is left of the group. -/
inductive Stepped (e : Exchange) (i : Nat) (rank : Rank) : Exchange → Prop where
  | store {contribution : List Float} {coming : List (List Float)} (hphase : rank.phase = .store)
      (hcoming : rank.coming = contribution :: coming) :
      Stepped e i rank { e.setRank i { rank with phase := .arrive, coming } with
        slots := e.slots.set i contribution }
  | arrive (hphase : rank.phase = .arrive) :
      Stepped e i rank (e.arriveAtBarrier.setRank i { rank with phase := .leave e.generation })
  | leave {generation : Nat} (hphase : rank.phase = .leave generation)
      (hopen : generation < e.generation) :
      Stepped e i rank (e.setRank i { rank with phase := .copy })
  | copy (hphase : rank.phase = .copy) :
      Stepped e i rank (e.setRank i { rank with phase := .arriveAgain e.slots })
  | arriveAgain {copied : List (List Float)} (hphase : rank.phase = .arriveAgain copied) :
      Stepped e i rank
        (e.arriveAtBarrier.setRank i { rank with phase := .leaveAgain e.generation copied })
  | leaveAgain {generation : Nat} {copied : List (List Float)}
      (hphase : rank.phase = .leaveAgain generation copied) (hopen : generation < e.generation) :
      Stepped e i rank
        (e.setRank i { rank with phase := .store, received := rank.received ++ [copied] })

/-- A step that a rank can take is one of the six. -/
theorem stepped_of_step? (h : e.step? i = some e') :
    ∃ rank, e.ranks[i]? = some rank ∧ Stepped e i rank e' := by
  unfold step? at h
  obtain ⟨rank, hrank, h⟩ := Option.bind_eq_some_iff.mp h
  refine ⟨rank, hrank, ?_⟩
  -- One case for each phase. Only the barrier can hold a rank back, and the end of its rounds.
  cases hphase : rank.phase with
  | store =>
    cases hcoming : rank.coming with
    | nil => simp [hphase, hcoming] at h
    | cons contribution coming =>
      obtain rfl : _ = e' := by simpa [hphase, hcoming] using h
      exact .store hphase hcoming
  | arrive =>
    obtain rfl : _ = e' := by simpa [hphase] using h
    exact .arrive hphase
  | leave generation =>
    obtain ⟨hopen, rfl⟩ : generation < e.generation ∧ _ = e' := by simpa [hphase] using h
    exact .leave hphase hopen
  | copy =>
    obtain rfl : _ = e' := by simpa [hphase] using h
    exact .copy hphase
  | arriveAgain copied =>
    obtain rfl : _ = e' := by simpa [hphase] using h
    exact .arriveAgain hphase
  | leaveAgain generation copied =>
    obtain ⟨hopen, rfl⟩ : generation < e.generation ∧ _ = e' := by simpa [hphase] using h
    exact .leaveAgain hphase hopen

/-! ### The barrier -/

/-- How often the barrier had opened when a rank that waits at it arrived. -/
def Phase.waitsIn? : Phase → Option Nat
  | .leave generation | .leaveAgain generation _ => some generation
  | .store | .arrive | .copy | .arriveAgain _ => none

/-- How often a rank has passed the barrier in this round. -/
def Phase.passed : Phase → Nat
  | .store | .arrive | .leave _ => 0
  | .copy | .arriveAgain _ | .leaveAgain _ _ => 1

/-- How often a rank has passed the barrier. -/
def Rank.passed (rank : Rank) : Nat := 2 * rank.received.length + rank.phase.passed

/-- A rank has passed the barrier as often as it has opened, unless the rank waits at it and is
    about to be let through. -/
def Rank.OnTime (generation : Nat) (rank : Rank) : Prop :=
  match rank.phase.waitsIn? with
  | none => generation = rank.passed
  | some arrived => arrived = rank.passed ∧ (generation = arrived ∨ generation = arrived + 1)

/-- All ranks are on time, and the barrier has counted those that wait for it to open. -/
structure Timely (e : Exchange) : Prop where
  onTime : ∀ rank ∈ e.ranks, rank.OnTime e.generation
  arrived : e.arrived = e.ranks.countP (·.phase.waitsIn? == some e.generation)
  closed : e.ranks ≠ [] → e.arrived < e.ranks.length

/-- Before the first round, no rank is ahead of another one. -/
theorem timely_start (contributions : List (List (List Float))) : (start contributions).Timely where
  onTime rank hrank := by
    obtain ⟨own, -, rfl⟩ := List.mem_map.mp hrank
    rfl
  arrived := by
    refine (List.countP_eq_zero.mpr fun rank hrank => ?_).symm
    obtain ⟨own, -, rfl⟩ := List.mem_map.mp hrank
    exact Bool.false_ne_true
  closed hne := List.length_pos_iff.mpr hne

namespace Timely

/-- A step of a rank that waits neither before it nor after it for the barrier to open. -/
theorem setRank (h : e.Timely) (hi : e.ranks[i]? = some rank)
    (hbefore : rank.phase.waitsIn? ≠ some e.generation) (hafter : rank'.phase.waitsIn? = none)
    (hpassed : rank'.passed = e.generation) : (e.setRank i rank').Timely where
  onTime other hother := by
    rcases List.mem_or_eq_of_mem_set hother with hother | rfl
    · exact h.onTime other hother
    · unfold Rank.OnTime
      rw [hafter]
      exact hpassed.symm
  arrived := by
    obtain ⟨hlt, rfl⟩ := List.getElem?_eq_some_iff.mp hi
    show e.arrived = (e.ranks.set i rank').countP (·.phase.waitsIn? == some e.generation)
    -- The rank is not counted before the step, and not after it.
    rw [List.countP_set hlt, ← h.arrived]
    simp [hbefore, hafter]
  closed hne := by
    show e.arrived < (e.ranks.set i rank').length
    rw [List.length_set]
    exact h.closed fun hnil => by simp [hnil] at hi

/-- A step of a rank that arrives at the barrier. -/
theorem arriveAtBarrier (h : e.Timely) (hi : e.ranks[i]? = some rank)
    (hbefore : rank.phase.waitsIn? = none) (hafter : rank'.phase.waitsIn? = some e.generation)
    (hpassed : rank'.passed = rank.passed) : (e.arriveAtBarrier.setRank i rank').Timely := by
  obtain ⟨hlt, rfl⟩ := List.getElem?_eq_some_iff.mp hi
  have hmem : e.ranks[i] ∈ e.ranks := List.getElem_mem hlt
  have honTime : e.generation = rank'.passed := by
    have hold := h.onTime _ hmem
    unfold Rank.OnTime at hold
    rw [hbefore] at hold
    exact hold.trans hpassed.symm
  -- One more rank waits for the barrier to open.
  have hcount : (e.ranks.set i rank').countP (·.phase.waitsIn? == some e.generation)
      = e.arrived + 1 := by
    rw [List.countP_set hlt, ← h.arrived]
    simp [hbefore, hafter]
  have honTime' : ∀ other ∈ e.ranks.set i rank', other.OnTime e.generation := by
    intro other hother
    rcases List.mem_or_eq_of_mem_set hother with hother | rfl
    · exact h.onTime other hother
    · unfold Rank.OnTime
      rw [hafter]
      exact ⟨honTime, .inl rfl⟩
  have hclosed := h.closed (List.ne_nil_of_mem hmem)
  unfold Exchange.arriveAtBarrier
  split
  · -- It is the last one: all ranks wait, and all are let through.
    rename_i hlast
    have hall : ∀ other ∈ e.ranks.set i rank', other.phase.waitsIn? = some e.generation := by
      have hlength : (e.ranks.set i rank').countP (·.phase.waitsIn? == some e.generation)
          = (e.ranks.set i rank').length := by rw [hcount, List.length_set, hlast]
      simpa using List.countP_eq_length.mp hlength
    refine ⟨fun other hother => ?_, ?_, fun _ => ?_⟩
    · have hold := honTime' other hother
      unfold Rank.OnTime at hold ⊢
      rw [hall other hother] at hold ⊢
      exact ⟨hold.1, .inr rfl⟩
    · refine (List.countP_eq_zero.mpr fun other hother => ?_).symm
      simp [hall other hother, Exchange.setRank]
    · show 0 < (e.ranks.set i rank').length
      rw [List.length_set]
      omega
  · refine ⟨honTime', hcount.symm, fun _ => ?_⟩
    show e.arrived + 1 < (e.ranks.set i rank').length
    rw [List.length_set]
    omega

/-- A rank that does not wait has passed the barrier as often as it has opened. -/
theorem passed_eq (h : e.Timely) (hi : e.ranks[i]? = some rank)
    (hphase : rank.phase.waitsIn? = none) : rank.passed = e.generation := by
  have hold := h.onTime _ (List.mem_of_getElem? hi)
  unfold Rank.OnTime at hold
  rw [hphase] at hold
  exact hold.symm

/-- A rank that is let through has passed the barrier as often as it had opened before. -/
theorem passed_add_one_eq (h : e.Timely) (hi : e.ranks[i]? = some rank) {generation : Nat}
    (hphase : rank.phase.waitsIn? = some generation) (hopen : generation < e.generation) :
    rank.passed + 1 = e.generation := by
  have hold := h.onTime _ (List.mem_of_getElem? hi)
  unfold Rank.OnTime at hold
  rw [hphase] at hold
  dsimp only at hold
  omega

/-- **Every step keeps all ranks on time.** -/
theorem step (h : e.Timely) (hi : e.ranks[i]? = some rank) (hstep : Stepped e i rank e') :
    e'.Timely := by
  -- A rank has passed the barrier when it leaves. When it arrives it joins those that wait, and its
  -- other steps leave the barrier alone.
  cases hstep with
  | @store contribution coming hphase hcoming =>
    have hfree : rank.phase.waitsIn? = none := by rw [hphase, Phase.waitsIn?]
    have hpassed := h.passed_eq hi hfree
    rw [Rank.passed, hphase] at hpassed
    have hset : (e.setRank i { rank with phase := .arrive, coming }).Timely :=
      h.setRank hi (by simp [hfree]) rfl hpassed
    exact ⟨hset.onTime, hset.arrived, hset.closed⟩
  | arrive hphase =>
    have hfree : rank.phase.waitsIn? = none := by rw [hphase, Phase.waitsIn?]
    exact h.arriveAtBarrier hi hfree rfl (by simp [Rank.passed, Phase.passed, hphase])
  | leave hphase hopen =>
    have hpassed := h.passed_add_one_eq hi (by simp [hphase, Phase.waitsIn?]) hopen
    exact h.setRank hi (by simpa [hphase, Phase.waitsIn?] using Nat.ne_of_lt hopen) rfl
      (by simpa [Rank.passed, Phase.passed, hphase] using hpassed)
  | copy hphase =>
    have hfree : rank.phase.waitsIn? = none := by rw [hphase, Phase.waitsIn?]
    have hpassed := h.passed_eq hi hfree
    rw [Rank.passed, hphase] at hpassed
    exact h.setRank hi (by simp [hfree]) rfl hpassed
  | arriveAgain hphase =>
    have hfree : rank.phase.waitsIn? = none := by rw [hphase, Phase.waitsIn?]
    exact h.arriveAtBarrier hi hfree rfl (by simp [Rank.passed, Phase.passed, hphase])
  | leaveAgain hphase hopen =>
    have hpassed := h.passed_add_one_eq hi (by simp [hphase, Phase.waitsIn?]) hopen
    exact h.setRank hi (by simpa [hphase, Phase.waitsIn?] using Nat.ne_of_lt hopen) rfl
      (by simpa [Rank.passed, Phase.passed, hphase, Nat.mul_add] using hpassed)

end Timely

/-! ### Slots -/

/-- The contributions of all ranks to a round, in the order of the ranks. -/
def Gathers (contributions : List (List (List Float))) (round : Nat) (parts : List (List Float)) :
    Prop :=
  List.Forall₂ (fun own part => own[round]? = some part) contributions parts

/-- The slots that a rank has copied in the round that it is in. -/
def Phase.copied? : Phase → Option (List (List Float))
  | .arriveAgain copied | .leaveAgain _ copied => some copied
  | .store | .arrive | .leave _ | .copy => none

/-- How many contributions a rank has stored in the round that it is in. -/
def Phase.stored : Phase → Nat
  | .store => 0
  | .arrive | .leave _ | .copy | .arriveAgain _ | .leaveAgain _ _ => 1

/-- A rank is through with its contributions as far as its rounds are, and what it has copied are
    the contributions to its rounds. -/
structure Rank.Faithful (contributions : List (List (List Float))) (own : List (List Float))
    (slot : List Float) (rank : Rank) : Prop where
  coming : rank.coming = own.drop (rank.received.length + rank.phase.stored)
  slot : rank.phase ≠ .store → own[rank.received.length]? = some slot
  copied : ∀ copied, rank.phase.copied? = some copied →
    Gathers contributions rank.received.length copied
  received : ∀ (round : Nat) copied, rank.received[round]? = some copied →
    Gathers contributions round copied

/-- All ranks are, with the slots that the group has. -/
structure Faithful (contributions : List (List (List Float))) (e : Exchange) : Prop where
  length_ranks : e.ranks.length = contributions.length
  length_slots : e.slots.length = contributions.length
  ranks : ∀ (i : Nat) own slot rank, contributions[i]? = some own → e.slots[i]? = some slot →
    e.ranks[i]? = some rank → rank.Faithful contributions own slot

/-- Before the first round, nothing has been received and everything is still to come. -/
theorem faithful_start (contributions : List (List (List Float))) :
    (start contributions).Faithful contributions where
  length_ranks := List.length_map _
  length_slots := List.length_map _
  ranks i own slot rank hown hslot hrank := by
    obtain rfl : rank = { coming := own } := by simpa [start, hown, eq_comm] using hrank
    exact ⟨rfl, fun h => absurd rfl h, fun _ h => absurd h (by simp [Phase.copied?]),
      fun _ _ h => absurd h (by simp)⟩

/-- A rank that has passed the barrier once in the round in which it has opened for the first time
    has stored its contribution to this round. -/
theorem Rank.OnTime.of_odd {round : Nat} (h : rank.OnTime (2 * round + 1)) :
    rank.received.length = round ∧ rank.phase ≠ .store := by
  unfold OnTime passed at h
  -- In the phase of storing, the rank would have passed the barrier an even number of times.
  cases hphase : rank.phase <;> simp only [hphase, Phase.waitsIn?, Phase.passed] at h <;>
    first | omega | exact ⟨by omega, by simp⟩

namespace Faithful

/-- Each rank has its contributions and its slot. -/
theorem exists_rank (h : e.Faithful contributions) (hi : e.ranks[i]? = some rank) :
    ∃ own slot, contributions[i]? = some own ∧ e.slots[i]? = some slot
      ∧ rank.Faithful contributions own slot := by
  have hlt := (List.getElem?_eq_some_iff.mp hi).1
  have hown := List.getElem?_eq_getElem (h.length_ranks ▸ hlt)
  have hslot := List.getElem?_eq_getElem (h.length_slots ▸ h.length_ranks ▸ hlt)
  exact ⟨_, _, hown, hslot, h.ranks i _ _ rank hown hslot hi⟩

/-- While a rank may copy the slots, they hold the contributions to its round. -/
theorem gathers_slots (h : e.Faithful contributions) (htimely : e.Timely)
    (hi : e.ranks[i]? = some rank) (hphase : rank.phase = .copy) :
    Gathers contributions rank.received.length e.slots := by
  have hodd := htimely.passed_eq hi (by simp [hphase, Phase.waitsIn?])
  rw [Rank.passed, hphase, Phase.passed] at hodd
  -- Every rank is in the same round and has stored its contribution, so it is in its slot.
  refine forall₂_iff_getElem?.mpr ⟨h.length_slots.symm, fun j own slot hown hslot => ?_⟩
  have hj : j < e.ranks.length := by
    rw [h.length_ranks]
    exact (List.getElem?_eq_some_iff.mp hown).1
  have hrank := List.getElem?_eq_getElem hj
  have honTime := htimely.onTime _ (List.getElem_mem hj)
  rw [← hodd] at honTime
  obtain ⟨hround, hstored⟩ := honTime.of_odd
  rw [← hround]
  exact (h.ranks j own slot _ hown hslot hrank).slot hstored

/-- A step changes one rank, and at most the slot of this rank. -/
theorem setSlots (h : e.Faithful contributions) (hi : e.ranks[i]? = some rank)
    {slots' : List (List Float)} (hlength : slots'.length = e.slots.length)
    (hslots : ∀ j, j ≠ i → slots'[j]? = e.slots[j]?)
    (hrank : ∀ own slot slot', rank.Faithful contributions own slot → slots'[i]? = some slot' →
      e.slots[i]? = some slot → rank'.Faithful contributions own slot') :
    { e.setRank i rank' with slots := slots' }.Faithful contributions where
  length_ranks := List.length_set.trans h.length_ranks
  length_slots := hlength.trans h.length_slots
  ranks j own slot' other hown hslot' hother := by
    -- Only the rank that takes the step has to be looked at; the others are as they were, and so
    -- are their slots.
    by_cases hj : j = i
    · subst hj
      have hlt : j < e.slots.length := by
        rw [h.length_slots]
        exact (List.getElem?_eq_some_iff.mp hown).1
      have hslot := List.getElem?_eq_getElem hlt
      have hset : (e.ranks.set j rank')[j]? = some other := hother
      rw [List.getElem?_set_self (List.getElem?_eq_some_iff.mp hi).1] at hset
      obtain rfl := Option.some.inj hset
      exact hrank own _ slot' (h.ranks j own _ rank hown hslot hi) hslot' hslot
    · have hset : (e.ranks.set i rank')[j]? = some other := hother
      rw [List.getElem?_set_ne (Ne.symm hj)] at hset
      exact h.ranks j own slot' other hown ((hslots j hj).symm.trans hslot') hset

/-- A step that changes no slot. -/
theorem setRank (h : e.Faithful contributions) (hi : e.ranks[i]? = some rank)
    (hrank : ∀ own slot, rank.Faithful contributions own slot →
      rank'.Faithful contributions own slot) : (e.setRank i rank').Faithful contributions := by
  refine h.setSlots hi rfl (fun _ _ => rfl) fun own slot slot' hold hslot' hslot => ?_
  obtain rfl := Option.some.inj (hslot.symm.trans hslot')
  exact hrank own slot hold

/-- The barrier has nothing to do with slots. -/
theorem arriveAtBarrier (h : e.Faithful contributions) :
    e.arriveAtBarrier.Faithful contributions := by
  unfold Exchange.arriveAtBarrier
  split <;> exact ⟨h.length_ranks, h.length_slots, h.ranks⟩

end Faithful

/-- An arrival at the barrier changes no rank. -/
theorem ranks_arriveAtBarrier (e : Exchange) : e.arriveAtBarrier.ranks = e.ranks := by
  unfold arriveAtBarrier
  split <;> rfl

/-- It changes no slot either. -/
theorem slots_arriveAtBarrier (e : Exchange) : e.arriveAtBarrier.slots = e.slots := by
  unfold arriveAtBarrier
  split <;> rfl

namespace Rank.Faithful

variable {own : List (List Float)} {slot : List Float}

/-- A rank that goes on within its round. -/
theorem setPhase (h : rank.Faithful contributions own slot) {phase : Phase}
    (hbefore : rank.phase ≠ .store) (hafter : phase ≠ .store)
    (hcopied : ∀ copied, phase.copied? = some copied →
      Gathers contributions rank.received.length copied) :
    { rank with phase }.Faithful contributions own slot := by
  have hstored : ∀ phase : Phase, phase ≠ .store → phase.stored = 1 := by
    intro phase hphase
    cases phase <;> first | rfl | exact absurd rfl hphase
  have hcoming := h.coming
  rw [hstored _ hbefore] at hcoming
  exact ⟨by rw [hstored _ hafter, hcoming], fun _ => h.slot hbefore, hcopied, h.received⟩

/-- A rank that has stored its next contribution. -/
theorem store (h : rank.Faithful contributions own slot) (hphase : rank.phase = .store)
    {contribution : List Float} {coming : List (List Float)}
    (hcoming : rank.coming = contribution :: coming) :
    { rank with phase := .arrive, coming }.Faithful contributions own contribution := by
  have hdrop : own.drop rank.received.length = contribution :: coming := by
    rw [← hcoming, h.coming, hphase, Phase.stored, Nat.add_zero]
  refine ⟨?_, fun _ => ?_, by simp [Phase.copied?], h.received⟩
  · show coming = own.drop (rank.received.length + 1)
    rw [← List.tail_drop, hdrop, List.tail_cons]
  · show own[rank.received.length]? = some contribution
    rw [← Nat.add_zero rank.received.length, ← List.getElem?_drop, hdrop, List.getElem?_cons_zero]

/-- A rank that has ended its round. -/
theorem leaveAgain (h : rank.Faithful contributions own slot) {generation : Nat}
    {copied : List (List Float)} (hphase : rank.phase = .leaveAgain generation copied) :
    { rank with phase := .store, received := rank.received ++ [copied] }.Faithful contributions own
      slot := by
  have hcoming := h.coming
  rw [hphase, Phase.stored] at hcoming
  refine ⟨?_, fun hstore => absurd rfl hstore, by simp [Phase.copied?], ?_⟩
  · show rank.coming = own.drop ((rank.received ++ [copied]).length + 0)
    rw [hcoming, List.length_append, List.length_singleton, Nat.add_zero]
  · intro round found hfound
    -- What was received in earlier rounds stays, and the round that ends has received the copy.
    rcases Nat.lt_trichotomy round rank.received.length with hlt | rfl | hgt
    · rw [List.getElem?_append_left hlt] at hfound
      exact h.received round found hfound
    · obtain rfl : copied = found := by simpa using hfound
      exact h.copied copied (by simp [hphase, Phase.copied?])
    · rw [List.getElem?_eq_none (by simp; omega)] at hfound
      exact absurd hfound (by simp)

end Rank.Faithful

/-- **Every step is faithful** to the contributions, if the ranks are on time. -/
theorem Faithful.step (h : e.Faithful contributions) (htimely : e.Timely)
    (hi : e.ranks[i]? = some rank) (hstep : Stepped e i rank e') : e'.Faithful contributions := by
  have hi' : e.arriveAtBarrier.ranks[i]? = some rank := by rwa [ranks_arriveAtBarrier]
  cases hstep with
  | @store contribution coming hphase hcoming =>
    refine h.setSlots hi List.length_set (fun j hj => List.getElem?_set_ne (Ne.symm hj)) ?_
    intro own slot slot' hold hslot' hslot
    rw [List.getElem?_set_self (List.getElem?_eq_some_iff.mp hslot).1] at hslot'
    exact Option.some.inj hslot' ▸ hold.store hphase hcoming
  | arrive hphase =>
    exact h.arriveAtBarrier.setRank hi' fun own slot hold =>
      hold.setPhase (by simp [hphase]) (by simp) (by simp [Phase.copied?])
  | leave hphase hopen =>
    exact h.setRank hi fun own slot hold =>
      hold.setPhase (by simp [hphase]) (by simp) (by simp [Phase.copied?])
  | copy hphase =>
    -- All ranks are in this round, so that every slot holds the contribution to it.
    have hgathers := h.gathers_slots htimely hi hphase
    exact h.setRank hi fun own slot hold =>
      hold.setPhase (by simp [hphase]) (by simp) (by simpa [Phase.copied?] using hgathers)
  | arriveAgain hphase =>
    exact h.arriveAtBarrier.setRank hi' fun own slot hold =>
      hold.setPhase (by simp [hphase]) (by simp)
        (by simpa [hphase, Phase.copied?] using hold.copied)
  | leaveAgain hphase hopen =>
    exact h.setRank hi fun own slot hold => hold.leaveAgain hphase

/-! ### Runs -/

/-- The group after its ranks have taken steps in some order; there is none if a rank cannot take
    its step. -/
def run (e : Exchange) (schedule : List Nat) : Option Exchange := schedule.foldlM step? e

/-- **Whatever the order of the steps**, all ranks stay on time and faithful. -/
theorem timely_and_faithful_of_run {schedule : List Nat}
    (h : (start contributions).run schedule = some e) : e.Timely ∧ e.Faithful contributions := by
  -- The last step is taken from a state that is on time and faithful.
  induction schedule using List.reverseRecOn generalizing e with
  | nil =>
    obtain rfl := Option.some.inj h
    exact ⟨timely_start contributions, faithful_start contributions⟩
  | append_singleton schedule i ih =>
    unfold run at h
    rw [List.foldlM_append] at h
    obtain ⟨before, hbefore, hstep⟩ := Option.bind_eq_some_iff.mp h
    rw [List.foldlM_cons] at hstep
    obtain ⟨after, hafter, hnil⟩ := Option.bind_eq_some_iff.mp hstep
    obtain rfl := Option.some.inj hnil
    obtain ⟨htimely, hfaithful⟩ := ih hbefore
    obtain ⟨rank, hi, hstepped⟩ := stepped_of_step? hafter
    exact ⟨htimely.step hi hstepped, hfaithful.step htimely hi hstepped⟩

/-- How many rounds a rank has copied. -/
def Rank.copies (rank : Rank) : Nat :=
  rank.received.length + if rank.phase.copied?.isSome then 1 else 0

/-- A rank that is on time when a round begins has copied all rounds before. -/
theorem Rank.OnTime.le_copies {round : Nat} (h : rank.OnTime (2 * round)) :
    round ≤ rank.copies := by
  unfold OnTime passed at h
  unfold copies
  cases hphase : rank.phase <;>
    simp only [hphase, Phase.waitsIn?, Phase.passed, Phase.copied?, Option.isSome_some,
      Option.isSome_none, Bool.false_eq_true, ↓reduceIte] at h ⊢ <;>
    omega

/-- The rounds of a group have not mixed so far, and will not in the next step. -/
structure RoundsApart (contributions : List (List (List Float))) (e : Exchange) : Prop where
  /-- What a round has given a rank are the contributions of all ranks to this round. -/
  received : ∀ rank ∈ e.ranks, ∀ (round : Nat) copied, rank.received[round]? = some copied →
    Gathers contributions round copied
  /-- A slot is written only with the contribution of its rank to the round that the rank is in, and
      only when every rank has copied all rounds before this one. -/
  stored : ∀ i e', e.step? i = some e' → e'.slots = e.slots ∨
    ∃ own rank contribution, contributions[i]? = some own ∧ e.ranks[i]? = some rank
      ∧ own[rank.received.length]? = some contribution ∧ e'.slots = e.slots.set i contribution
      ∧ ∀ other ∈ e.ranks, rank.received.length ≤ other.copies

/-- **Rounds do not mix**, in whatever order the ranks of a group take their steps. -/
theorem roundsApart_of_run {schedule : List Nat}
    (h : (start contributions).run schedule = some e) : e.RoundsApart contributions := by
  obtain ⟨htimely, hfaithful⟩ := timely_and_faithful_of_run h
  constructor
  · intro rank hrank round copied hcopied
    obtain ⟨i, hi⟩ := List.mem_iff_getElem?.mp hrank
    obtain ⟨own, slot, -, -, hold⟩ := hfaithful.exists_rank hi
    exact hold.received round copied hcopied
  · intro i e' hstep
    obtain ⟨rank, hi, hstepped⟩ := stepped_of_step? hstep
    cases hstepped with
    | @store contribution coming hphase hcoming =>
      obtain ⟨own, slot, hown, -, hold⟩ := hfaithful.exists_rank hi
      have hstored := (hold.store hphase hcoming).slot (by simp)
      refine .inr ⟨own, rank, contribution, hown, hi, hstored, rfl, fun other hother => ?_⟩
      -- The barrier has opened twice for each round that the rank has behind it.
      have heven := htimely.passed_eq hi (by simp [hphase, Phase.waitsIn?])
      rw [Rank.passed, hphase, Phase.passed, Nat.add_zero] at heven
      have honTime := htimely.onTime other hother
      rw [← heven] at honTime
      exact honTime.le_copies
    | arrive | arriveAgain => exact .inl (slots_arriveAtBarrier e)
    | leave | copy | leaveAgain => exact .inl rfl

/-- Two rounds of two ranks, which contribute as much as they like. -/
def twoRounds : List (List (List Float)) := [[[1], [2, 3]], [[], [4]]]

/-- Rank 0 has begun the second round while rank 1 has yet to leave the first one. -/
theorem roundsApart_of_overtaken :
    let overtaken : Exchange :=
      ⟨[⟨.arrive, [], [[[1], []]]⟩, ⟨.leaveAgain 1 [[1], []], [[4]], []⟩], [[2, 3], []], 0, 2⟩
    (start twoRounds).run [1, 0, 0, 1, 1, 1, 1, 0, 0, 0, 0, 0] = some overtaken
      ∧ overtaken.RoundsApart twoRounds := by
  intro overtaken
  have hrun : (start twoRounds).run [1, 0, 0, 1, 1, 1, 1, 0, 0, 0, 0, 0] = some overtaken := by rfl
  exact ⟨hrun, roundsApart_of_run hrun⟩

/-! ### Getting ahead -/

/-- A rank that can take no step has no round left, or waits for the barrier to open. -/
theorem finished_or_waits (hi : e.ranks[i]? = some rank) (h : e.step? i = none) :
    (rank.phase = .store ∧ rank.coming = [])
      ∨ ∃ generation, rank.phase.waitsIn? = some generation ∧ e.generation ≤ generation := by
  simp only [step?, hi, Option.bind_eq_bind, Option.bind_some] at h
  cases hphase : rank.phase with
  | store =>
    cases hcoming : rank.coming with
    | nil => exact .inl ⟨rfl, rfl⟩
    | cons contribution coming => simp [hphase, hcoming] at h
  | leave generation => exact .inr ⟨generation, rfl, by simpa [hphase] using h⟩
  | leaveAgain generation copied => exact .inr ⟨generation, rfl, by simpa [hphase] using h⟩
  | arrive | copy | arriveAgain => simp [hphase] at h

/-- Not all ranks wait for the barrier to open. -/
theorem Timely.exists_waitsIn?_ne (h : e.Timely) (hne : e.ranks ≠ []) :
    ∃ rank ∈ e.ranks, rank.phase.waitsIn? ≠ some e.generation := by
  by_contra hnone
  have hall : ∀ rank ∈ e.ranks, rank.phase.waitsIn? = some e.generation := by simpa using hnone
  have hcount : e.ranks.countP (·.phase.waitsIn? == some e.generation) = e.ranks.length :=
    List.countP_eq_length.mpr fun rank hrank => by simp [hall rank hrank]
  have hclosed := h.closed hne
  rw [h.arrived, hcount] at hclosed
  exact absurd hclosed (Nat.lt_irrefl _)

/-- A rank that has no round left has been through all of them. -/
theorem Rank.Faithful.length_le_of_finished {own : List (List Float)} {slot : List Float}
    (h : rank.Faithful contributions own slot) (hphase : rank.phase = .store)
    (hcoming : rank.coming = []) : own.length ≤ rank.received.length := by
  have hdrop := h.coming
  rw [hcoming, hphase, Phase.stored, Nat.add_zero] at hdrop
  exact List.drop_eq_nil_iff.mp hdrop.symm

/-- A rank that waits for the barrier to open has passed it as often as it has opened. -/
theorem Rank.OnTime.of_closed {generation arrived : Nat} (h : rank.OnTime generation)
    (hwaits : rank.phase.waitsIn? = some arrived) (hclosed : generation ≤ arrived) :
    arrived = generation ∧ rank.passed = generation := by
  unfold OnTime at h
  rw [hwaits] at h
  dsimp only at h
  omega

/-- If no rank can take a step, then none of them waits: another one would have to be through with
    all of its rounds, and the first one would be in a round beyond these. -/
theorem waitsIn?_eq_none_of_stuck {rounds : Nat}
    (hrounds : ∀ own ∈ contributions, own.length = rounds) (htimely : e.Timely)
    (hfaithful : e.Faithful contributions) (hstuck : ∀ i, e.step? i = none)
    (hi : e.ranks[i]? = some rank) : rank.phase.waitsIn? = none := by
  by_contra hwaits
  have hmem := List.mem_of_getElem? hi
  obtain ⟨other, hother, hne⟩ := htimely.exists_waitsIn?_ne (List.ne_nil_of_mem hmem)
  obtain ⟨j, hj⟩ := List.mem_iff_getElem?.mp hother
  rcases finished_or_waits hi (hstuck i) with ⟨hphase, -⟩ | ⟨g, hg, hclosed⟩
  · exact hwaits (by rw [hphase, Phase.waitsIn?])
  rcases finished_or_waits hj (hstuck j) with ⟨hphase, hcoming⟩ | ⟨g', hg', hclosed'⟩
  · obtain ⟨own, slot, hown, -, hold⟩ := hfaithful.exists_rank hi
    obtain ⟨own', slot', hown', -, hold'⟩ := hfaithful.exists_rank hj
    have hthrough := hold'.length_le_of_finished hphase hcoming
    rw [hrounds own' (List.mem_of_getElem? hown')] at hthrough
    have hstored := hold.slot fun hstore => hwaits (by rw [hstore, Phase.waitsIn?])
    have hwithin := (List.getElem?_eq_some_iff.mp hstored).1
    rw [hrounds own (List.mem_of_getElem? hown)] at hwithin
    -- Both have passed the barrier equally often, so they are in one round.
    have hpassed := (htimely.onTime rank hmem).of_closed hg hclosed
    have hpassed' := htimely.passed_eq hj (by rw [hphase, Phase.waitsIn?])
    have hphase_le : rank.phase.passed ≤ 1 := by cases rank.phase <;> simp [Phase.passed]
    rw [Rank.passed] at hpassed
    rw [Rank.passed, hphase, Phase.passed] at hpassed'
    omega
  · obtain ⟨rfl, -⟩ := (htimely.onTime other hother).of_closed hg' hclosed'
    exact hne hg'

/-- **A group does not get stuck.** If its ranks want the same number of rounds, then some rank can
    take a step, or all rounds of all ranks are over. -/
theorem exists_step?_of_run {rounds : Nat} (hrounds : ∀ own ∈ contributions, own.length = rounds)
    {schedule : List Nat} (h : (start contributions).run schedule = some e) :
    (∃ i e', e.step? i = some e') ∨ ∀ rank ∈ e.ranks, rank.received.length = rounds := by
  obtain ⟨htimely, hfaithful⟩ := timely_and_faithful_of_run h
  by_cases hstep : ∃ i e', e.step? i = some e'
  · exact .inl hstep
  have hstuck : ∀ i, e.step? i = none := by
    intro i
    rw [Option.eq_none_iff_forall_ne_some]
    exact fun e' he' => hstep ⟨i, e', he'⟩
  refine .inr fun rank hrank => ?_
  obtain ⟨i, hi⟩ := List.mem_iff_getElem?.mp hrank
  obtain ⟨own, slot, hown, -, hold⟩ := hfaithful.exists_rank hi
  have hwaits := waitsIn?_eq_none_of_stuck hrounds htimely hfaithful hstuck hi
  rcases finished_or_waits hi (hstuck i) with ⟨hphase, hcoming⟩ | ⟨g, hg, -⟩
  · have hle := hold.length_le_of_finished hphase hcoming
    have hmem := List.mem_of_getElem? hown
    rw [hrounds own hmem] at hle
    refine Nat.le_antisymm ?_ hle
    -- A round too many would have given it a contribution that the rank itself does not have.
    by_contra hlt
    have hcopied := List.getElem?_eq_getElem (Nat.lt_of_not_le hlt)
    obtain ⟨part, -, hpart⟩ := exists_of_forall₂ (hold.received _ _ hcopied) hmem
    have hbound := (List.getElem?_eq_some_iff.mp hpart).1
    rw [hrounds own hmem] at hbound
    exact absurd hbound (Nat.lt_irrefl _)
  · rw [hwaits] at hg
    exact absurd hg (by simp)

end MeshExpr.Exchange
