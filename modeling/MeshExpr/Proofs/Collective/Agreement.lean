import MeshExpr.Collective.Ranks
import MeshExpr.Proofs.Checked

namespace MeshExpr.Collective

/-!
# Groups that agree

The exchanges of a group answer all of its ranks alike. Programs that may differ from rank to rank
can therefore come to one result on all ranks, and when they do, the group goes on from there as if
the result had been known from the start. `InStep` follows programs through every possible answer;
here the answers are those that the group gives itself, so that something can be said about the
result.

* `Agree` — a group does not stall, and all of its ranks come to one result.
* `runRanks_bind` — how a group goes on from its result.
* `Agree.bind`, `Agree.exceptBind` — programs one after the other.
* `runRanks_singleton` — a group of one rank.
-/

variable {α β ε ι : Type}

/-! ### Programs one after the other -/

/-- A program that contributes to an exchange is one that exchanges first. -/
theorem exists_of_contribution? {c : Collective α} {sent : List Float}
    (h : c.contribution? = some sent) : ∃ next, c = .exchange sent next := by
  cases c with
  | done a => exact absurd h (by simp [contribution?])
  | exchange sent' next =>
    obtain rfl : sent' = sent := Option.some.inj h
    exact ⟨next, rfl⟩

/-- A program with a result is done. -/
theorem eq_done_of_result? {c : Collective α} {a : α} (h : c.result? = some a) : c = .done a := by
  cases c with
  | done a' => exact congrArg _ (Option.some.inj h)
  | exchange sent next => exact absurd h (by simp [result?])

/-- A group that has come to one result goes on from there. -/
theorem lockstep_bind {lowest : Collective α} {others : List ι} {program : ι → Collective α}
    {a : α} (h : lockstep lowest (others.map program) = some (List.replicate (others.length + 1) a))
    (f : α → Collective β) (g : ι → α → Collective β) :
    lockstep (lowest >>= f) (others.map fun i => program i >>= g i)
      = lockstep (f a) (others.map (g · a)) := by
  induction lowest generalizing program with
  | done a' =>
    unfold lockstep at h
    obtain ⟨results, hresults, heq⟩ := Option.map_eq_some_iff.mp h
    rw [List.replicate_succ] at heq
    obtain ⟨rfl, rfl⟩ := List.cons_eq_cons.mp heq
    rw [mapM_eq_some_iff, List.forall₂_map_left_iff] at hresults
    -- All other ranks are done as well, with the same result.
    have hdone : ∀ i ∈ others, program i >>= g i = g i a' := by
      intro i hi
      obtain ⟨b, hb, hresult⟩ := exists_of_forall₂ hresults hi
      rw [List.eq_of_mem_replicate hb] at hresult
      rw [eq_done_of_result? hresult, done_bind]
    rw [done_bind, List.map_congr_left hdone]
  | exchange sent next ih =>
    unfold lockstep at h
    obtain ⟨parts, hparts, h⟩ := Option.bind_eq_some_iff.mp h
    dsimp only at h
    rw [mapM_eq_some_iff, List.forall₂_map_left_iff] at hparts
    rw [List.map_map] at h
    -- What follows the programs changes neither what they send nor how they go on.
    have hparts' : (others.map fun i => program i >>= g i).mapM contribution? = some parts := by
      rw [mapM_eq_some_iff, List.forall₂_map_left_iff]
      refine hparts.imp fun i part hpart => ?_
      obtain ⟨next', hprogram⟩ := exists_of_contribution? hpart
      rw [hprogram]
      rfl
    have hresume : ∀ answer, ∀ i ∈ others, (resume answer ∘ fun i => program i >>= g i) i
        = (resume answer ∘ program) i >>= g i := by
      intro answer i hi
      obtain ⟨part, -, hpart⟩ := exists_of_forall₂ hparts hi
      obtain ⟨next', hprogram⟩ := exists_of_contribution? hpart
      simp only [Function.comp_apply, hprogram, exchange_bind, resume]
    rw [exchange_bind, lockstep, hparts']
    show lockstep (next (.ok (sent :: parts)) >>= f) _ = _
    rw [List.map_map, List.map_congr_left (hresume _)]
    exact ih _ h

/-- The same for any group. -/
theorem runRanks_bind {ranks : List ι} {program : ι → Collective α} {a : α}
    (h : runRanks (ranks.map program) = some (List.replicate ranks.length a))
    (f : ι → α → Collective β) :
    runRanks (ranks.map fun i => program i >>= f i) = runRanks (ranks.map (f · a)) := by
  cases ranks with
  | nil => rfl
  | cons lowest others => exact lockstep_bind h (f lowest) f

/-- A group in which every rank is done with the same result. -/
theorem runRanks_done (ranks : List ι) (a : α) :
    runRanks (ranks.map fun _ => done a) = some (List.replicate ranks.length a) := by
  cases ranks with
  | nil => rfl
  | cons lowest others =>
    show lockstep (done a) (others.map fun _ => done a) = _
    unfold lockstep
    have hresults : (others.map fun _ => done a).mapM result?
        = some (List.replicate others.length a) := by
      rw [mapM_eq_some_iff, List.forall₂_map_left_iff, ← List.map_const',
        List.forall₂_map_right_iff]
      exact List.forall₂_same.mpr fun _ _ => rfl
    rw [hresults]
    rfl

/-- A group of one rank does what the rank does alone. -/
theorem runRanks_singleton (c : Collective α) : runRanks [c] = some [c.runAlone] := by
  show lockstep c [] = _
  induction c with
  | done a => rfl
  | exchange sent next ih =>
    unfold lockstep
    exact ih _

/-! ### Agreement -/

/-- A group does not stall, and all of its ranks come to one result, which has the property `P`. -/
def Agree (ranks : List ι) (P : α → Prop) (program : ι → Collective α) : Prop :=
  ∃ a, runRanks (ranks.map program) = some (List.replicate ranks.length a) ∧ P a

namespace Agree

variable {ranks : List ι} {P : α → Prop} {Q : β → Prop}

/-- Ranks that are done with one result agree on it. -/
theorem done {a : α} (h : P a) : Agree ranks P fun _ => .done a :=
  ⟨a, runRanks_done ranks a, h⟩

/-- Only what the ranks of the group do counts. -/
theorem congr {program program' : ι → Collective α} (h : Agree ranks P program)
    (heq : ∀ i ∈ ranks, program' i = program i) : Agree ranks P program' := by
  obtain ⟨a, ha, hP⟩ := h
  exact ⟨a, List.map_congr_left heq ▸ ha, hP⟩

/-- **Programs one after the other.** If a group comes to one result, and goes on from it to one
    result, then so does the whole. -/
theorem bind {program : ι → Collective α} {f : ι → α → Collective β} (h : Agree ranks P program)
    (hf : ∀ a, P a → Agree ranks Q (f · a)) : Agree ranks Q fun i => program i >>= f i := by
  obtain ⟨a, ha, hP⟩ := h
  obtain ⟨b, hb, hQ⟩ := hf a hP
  exact ⟨b, (runRanks_bind ha f).trans hb, hQ⟩

/-- Programs that may fail: a failure ends the group. -/
theorem exceptBind {P : Except ε α → Prop} {Q : Except ε β → Prop}
    {program : ι → ExceptT ε Collective α} {f : ι → α → ExceptT ε Collective β}
    (h : Agree ranks P fun i => (program i).run) (herror : ∀ e, P (.error e) → Q (.error e))
    (hf : ∀ a, P (.ok a) → Agree ranks Q fun i => (f i a).run) :
    Agree ranks Q fun i => (program i >>= f i).run := by
  simp only [ExceptT.run_bind]
  refine h.bind fun result hresult => ?_
  cases result with
  | error e => exact .done (herror e hresult)
  | ok a => exact hf a hresult

end Agree

end MeshExpr.Collective
