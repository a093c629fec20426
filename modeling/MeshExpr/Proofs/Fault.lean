import MeshExpr.Proofs.Checked

namespace MeshExpr

/-!
# The first fault

A chain of checks stops at the first of them that finds something, and its error is what this one
has found. So one can tell the error of a chain from the faults that each of its checks is about,
without running it.

* `FirstOf` — the error of several checks, one after the other, and `bind_eq_error_iff`.
* `FirstFault` — the error of one check of each element of a list, which may look back at the
  elements before it: `foldlM_eq_error_iff` and `mapM_zipIdx_eq_error_iff`.
-/

variable {α β σ ε : Type}

/-- Two failures are the same if their errors are. -/
theorem error_eq_error_iff {e e' : ε} : (.error e' : Except ε α) = .error e ↔ e = e' :=
  ⟨fun h => (Except.error.inj h).symm, fun h => congrArg _ h.symm⟩

/-- A check finds something exactly if there is no fault for it to report. -/
theorem exists_eq_ok_iff {x : Except ε α} {fault : ε → Prop} (hx : ∀ e, x = .error e ↔ fault e) :
    (∃ a, x = .ok a) ↔ ∀ e, ¬ fault e := by
  simp only [← hx]
  cases x <;> simp

/-! ### Several checks -/

/-- The error is what the first of several checks reports that finds a fault at all. -/
def FirstOf : List (ε → Prop) → ε → Prop
  | [], _ => False
  | fault :: rest, e => fault e ∨ (∀ e', ¬ fault e') ∧ FirstOf rest e

@[simp] theorem firstOf_singleton_iff {fault : ε → Prop} {e : ε} :
    FirstOf [fault] e ↔ fault e := by
  simp [FirstOf]

/-- Of two checks, the second one reports only what the first one leaves to it. -/
theorem firstOf_pair_iff {fault fault' : ε → Prop} {e : ε} :
    FirstOf [fault, fault'] e ↔ fault e ∨ (∀ e', ¬ fault e') ∧ fault' e := by
  simp [FirstOf]

/-- What is reported is the fault of one of the checks. -/
theorem FirstOf.exists_mem {checks : List (ε → Prop)} {e : ε} (h : FirstOf checks e) :
    ∃ fault ∈ checks, fault e := by
  induction checks with
  | nil => exact h.elim
  | cons fault rest ih =>
    rcases h with h | ⟨-, h⟩
    · exact ⟨fault, List.mem_cons_self, h⟩
    · obtain ⟨fault', hmem, h⟩ := ih h
      exact ⟨fault', List.mem_cons_of_mem _ hmem, h⟩

/-- No check finds a fault exactly if there is no first one. -/
theorem forall_not_firstOf_iff {checks : List (ε → Prop)} :
    (∀ e, ¬ FirstOf checks e) ↔ ∀ fault ∈ checks, ∀ e, ¬ fault e := by
  induction checks with
  | nil => simp [FirstOf]
  | cons fault rest ih =>
    simp only [FirstOf, List.forall_mem_cons, ← ih, not_or, forall_and]
    refine and_congr_right fun hfault => ?_
    simp [hfault]

/-- Checks behind others come to a decision only if the others find nothing. -/
theorem firstOf_append_iff {checks checks' : List (ε → Prop)} {e : ε} :
    FirstOf (checks ++ checks') e ↔
      FirstOf checks e ∨ (∀ fault ∈ checks, ∀ e', ¬ fault e') ∧ FirstOf checks' e := by
  induction checks with
  | nil => simp [FirstOf]
  | cons fault rest ih =>
    simp only [List.cons_append, FirstOf, ih, List.forall_mem_cons]
    tauto

/-- Two checks, one after the other, fail if the first does, or if the second does with what the
    first has found. -/
theorem bind_eq_error_iff {x : Except ε α} {f : α → Except ε β} {fault : ε → Prop}
    {rest : List (ε → Prop)} {e : ε} (hx : ∀ e, x = .error e ↔ fault e)
    (hf : ∀ a, x = .ok a → (f a = .error e ↔ FirstOf rest e)) :
    x >>= f = .error e ↔ FirstOf (fault :: rest) e := by
  unfold FirstOf
  rw [← hx]
  cases x with
  | error e' =>
    have hfault : fault e' := (hx e').mp rfl
    show Except.error e' = .error e ↔ _
    -- A check that fails reports one error, so its fault is that one and no other.
    rw [error_eq_error_iff, error_eq_error_iff]
    refine ⟨.inl, ?_⟩
    rintro (h | ⟨hnone, -⟩)
    · exact h
    · exact absurd hfault (hnone e')
  | ok a =>
    have hnone : ∀ e', ¬ fault e' := fun e' h => absurd ((hx e').mpr h) (by simp)
    show f a = .error e ↔ _
    rw [hf a rfl]
    simp [hnone]

/-! ### One check of each element -/

/-- The error is the fault of the first element that has one. Whether an element has a fault may
    depend on the elements before it. -/
def FirstFault (fault : List α → α → ε → Prop) (l : List α) (e : ε) : Prop :=
  ∃ before a after, l = before ++ a :: after ∧ fault before a e ∧
    ∀ earlier b later, before = earlier ++ b :: later → ∀ e', ¬ fault earlier b e'

variable {fault fault' : List α → α → ε → Prop} {l : List α} {a : α} {e : ε}

@[simp] theorem not_firstFault_nil : ¬ FirstFault fault [] e := by
  rintro ⟨before, a, after, h, -⟩
  simp at h

/-- The first fault of a list is that of its first element, or else the first of the rest. -/
theorem firstFault_cons_iff :
    FirstFault fault (a :: l) e ↔ fault [] a e ∨
      (∀ e', ¬ fault [] a e') ∧ FirstFault (fun before => fault (a :: before)) l e := by
  constructor
  · rintro ⟨before, b, after, heq, hfault, hearlier⟩
    -- Nothing is before the first element; every other one has it among those before.
    rcases List.cons_eq_append_iff.mp heq with ⟨rfl, heq⟩ | ⟨before, rfl, rfl⟩
    · obtain ⟨rfl, rfl⟩ := List.cons.inj heq
      exact .inl hfault
    · refine .inr ⟨hearlier [] a before rfl, before, b, after, rfl, hfault, ?_⟩
      rintro earlier c later rfl
      exact hearlier (a :: earlier) c later rfl
  · rintro (hfault | ⟨hfirst, before, b, after, rfl, hfault, hearlier⟩)
    · exact ⟨[], a, l, rfl, hfault, fun earlier b later h => by simp at h⟩
    · refine ⟨a :: before, b, after, rfl, hfault, fun earlier c later heq => ?_⟩
      rcases List.cons_eq_append_iff.mp heq with ⟨rfl, heq⟩ | ⟨earlier, rfl, rfl⟩
      · obtain ⟨rfl, -⟩ := List.cons.inj heq
        exact hfirst
      · exact hearlier earlier c later rfl

/-- What counts is which faults the elements have behind those before them. -/
theorem firstFault_congr
    (h : ∀ before a after, l = before ++ a :: after → ∀ e, fault before a e ↔ fault' before a e) :
    FirstFault fault l e ↔ FirstFault fault' l e := by
  induction l generalizing fault fault' with
  | nil => simp
  | cons a l ih =>
    have hrest := ih fun before b after heq => h (a :: before) b after (by rw [heq]; rfl)
    simp only [firstFault_cons_iff, h [] a l rfl, hrest]

/-- A chain of steps fails at the first of them that does. -/
theorem foldlM_eq_error_iff {f : σ → α → Except ε σ} {s : σ}
    (hf : ∀ before a s', before.foldlM f s = .ok s' → ∀ e, f s' a = .error e ↔ fault before a e) :
    l.foldlM f s = .error e ↔ FirstFault fault l e := by
  induction l generalizing fault s with
  | nil => simp [pure, Except.pure]
  | cons a l ih =>
    rw [List.foldlM_cons, firstFault_cons_iff, ← firstOf_pair_iff]
    refine bind_eq_error_iff (hf [] a s rfl) fun s' hstep => ?_
    -- The steps that are left see the first element in front of them.
    rw [firstOf_singleton_iff]
    refine ih fun before b s'' hbefore => hf (a :: before) b s'' ?_
    rw [List.foldlM_cons, hstep]
    exact hbefore

/-- A check of each element and its place fails at the first of them that does. -/
theorem mapM_zipIdx_eq_error_iff {f : α × Nat → Except ε β} {place : Nat} :
    (l.zipIdx place).mapM f = .error e ↔
      FirstFault (fun before a e => f (a, place + before.length) = .error e) l e := by
  induction l generalizing place with
  | nil => simp [pure, Except.pure]
  | cons a l ih =>
    have hrest := @ih (place + 1)
    simp only [Nat.add_assoc, Nat.add_comm 1] at hrest
    rw [List.zipIdx_cons, List.mapM_cons, firstFault_cons_iff]
    refine (bind_eq_error_iff (fun e => Iff.rfl) fun b _ => ?_).trans firstOf_pair_iff
    simp only [List.length_cons, firstOf_singleton_iff, ← hrest]
    cases (l.zipIdx (place + 1)).mapM f <;> simp [bind, Except.bind, pure, Except.pure]

end MeshExpr
