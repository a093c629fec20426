import MeshExpr.Collective.Basic
import Mathlib.Data.List.Forall2

namespace MeshExpr.Collective

/-!
# Programs and their partners

A partner may answer an exchange with anything: with parts of any number and width, or with a
failure, and in another way each time. Here is what holds against every partner.

* `runWith_bind`, `runWith_exceptBind` — the second of two programs goes on with the partner where
  the first has left off.
* `exists_of_runWith_mapM_eq_error` — a program that is run for each element of a list fails at the
  first element for which it does; `forall₂_of_runWith_mapM_eq_ok` says what it has found otherwise.
* `Always` — whatever the exchanges answer, as far as it is allowed, the result has a property;
  `Fails` is the same for the errors of programs that may fail, and `Yields` for what they succeed
  with when every answer is allowed.
-/

variable {α β ε : Type} {partner : Nat → List Float → Answer} {allowed : Answer → Prop}

/-! ### Programs one after the other -/

/-- The second program is answered from where the first one has left off. -/
theorem runWith_bind (partner : Nat → List Float → Answer) (start : Nat) (c : Collective α)
    (f : α → Collective β) :
    (c >>= f).runWith partner start =
      let (a, sent) := c.runWith partner start
      let (b, later) := (f a).runWith partner (start + sent.length)
      (b, sent ++ later) := by
  induction c generalizing start with
  | done a => rfl
  | exchange sent next ih =>
    -- One exchange is over, and the rest begins with the next number.
    have hnext := ih (partner start sent) (start + 1)
    have hstart : ∀ n, start + 1 + n = start + (n + 1) := fun n => by omega
    simp only [hstart] at hnext
    exact congrArg (fun run : β × List (List Float) => (run.1, sent :: run.2)) hnext

/-- A program that may fail and what follows it. -/
theorem runWith_exceptBind (partner : Nat → List Float → Answer) (start : Nat)
    (x : ExceptT ε Collective α) (f : α → ExceptT ε Collective β) :
    (x >>= f).run.runWith partner start =
      match x.run.runWith partner start with
      | (.ok a, sent) =>
        let (b, later) := (f a).run.runWith partner (start + sent.length)
        (b, sent ++ later)
      | (.error e, sent) => (.error e, sent) := by
  rw [ExceptT.run_bind, runWith_bind]
  rcases x.run.runWith partner start with ⟨_ | a, sent⟩
  · simp [runWith]
  · rfl

/-- If two programs one after the other succeed, then both do. -/
theorem exists_of_runWith_bind_eq_ok {x : ExceptT ε Collective α}
    {f : α → ExceptT ε Collective β} {start : Nat} {b : β}
    (h : ((x >>= f).run.runWith partner start).1 = .ok b) :
    ∃ a n, (x.run.runWith partner start).1 = .ok a ∧ ((f a).run.runWith partner n).1 = .ok b := by
  rw [runWith_exceptBind] at h
  rcases hx : x.run.runWith partner start with ⟨_ | a, sent⟩
  · simp [hx] at h
  · rw [hx] at h
    exact ⟨a, start + sent.length, rfl, h⟩

/-- If they fail, then either the first does, or the second does with what the first has found. -/
theorem cases_of_runWith_bind_eq_error {x : ExceptT ε Collective α}
    {f : α → ExceptT ε Collective β} {start : Nat} {e : ε}
    (h : ((x >>= f).run.runWith partner start).1 = .error e) :
    (x.run.runWith partner start).1 = .error e
      ∨ ∃ a n, (x.run.runWith partner start).1 = .ok a
          ∧ ((f a).run.runWith partner n).1 = .error e := by
  rw [runWith_exceptBind] at h
  rcases hx : x.run.runWith partner start with ⟨_ | a, sent⟩
  · rw [hx] at h
    exact .inl (by simpa using h)
  · rw [hx] at h
    exact .inr ⟨a, start + sent.length, rfl, h⟩

/-! ### One program for each element of a list -/

/-- If the program succeeds for all elements, it has found the results one by one. -/
theorem forall₂_of_runWith_mapM_eq_ok {f : α → ExceptT ε Collective β} {l : List α} {start : Nat}
    {found : List β} (h : ((l.mapM f).run.runWith partner start).1 = .ok found) :
    List.Forall₂ (fun a b => ∃ n, ((f a).run.runWith partner n).1 = .ok b) l found := by
  induction l generalizing start found with
  | nil =>
    rw [List.mapM_nil] at h
    obtain rfl := Except.ok.inj h
    exact .nil
  | cons a rest ih =>
    rw [List.mapM_cons] at h
    -- The first element has succeeded, and then all others have.
    obtain ⟨b, n, hb, h⟩ := exists_of_runWith_bind_eq_ok h
    obtain ⟨bs, n', hbs, h⟩ := exists_of_runWith_bind_eq_ok h
    obtain rfl := Except.ok.inj h
    exact .cons ⟨start, hb⟩ (ih hbs)

/-- If it fails, then there is a first element for which it does, and it has found something for
    those before it. -/
theorem exists_of_runWith_mapM_eq_error {f : α → ExceptT ε Collective β} {l : List α} {start : Nat}
    {e : ε} (h : ((l.mapM f).run.runWith partner start).1 = .error e) :
    ∃ before a after, l = before ++ a :: after
      ∧ (∀ a' ∈ before, ∃ b n, ((f a').run.runWith partner n).1 = .ok b)
      ∧ ∃ n, ((f a).run.runWith partner n).1 = .error e := by
  induction l generalizing start with
  | nil => exact absurd h (by simp [List.mapM_nil, runWith, ExceptT.run_pure])
  | cons a rest ih =>
    rw [List.mapM_cons] at h
    -- Either the first element fails, or it succeeds and one of the others fails.
    rcases cases_of_runWith_bind_eq_error h with hfails | ⟨b, n, hb, h⟩
    · exact ⟨[], a, rest, rfl, by simp, start, hfails⟩
    rcases cases_of_runWith_bind_eq_error h with hfails | ⟨bs, n', -, h⟩
    · obtain ⟨before, a', after, rfl, hbefore, hfails⟩ := ih hfails
      refine ⟨a :: before, a', after, rfl, fun a'' ha'' => ?_, hfails⟩
      rcases List.mem_cons.mp ha'' with rfl | ha''
      · exact ⟨b, start, hb⟩
      · exact hbefore a'' ha''
    · exact absurd h (by simp [runWith, ExceptT.run_pure])

/-! ### Whatever the exchanges answer -/

/-- Every answer, as a condition on answers. -/
abbrev anyAnswer : Answer → Prop := fun _ => True

/-- Whatever the exchanges of a program answer, as long as each answer is allowed, its result has
    the property. -/
inductive Always (allowed : Answer → Prop) (P : α → Prop) : Collective α → Prop where
  | done {a : α} (h : P a) : Always allowed P (.done a)
  | exchange {sent : List Float} {next : Answer → Collective α}
      (h : ∀ answer, allowed answer → Always allowed P (next answer)) :
      Always allowed P (.exchange sent next)

/-- Against a partner whose answers are allowed, the result has the property. -/
theorem Always.runWith {P : α → Prop} {c : Collective α} (h : Always allowed P c)
    (hpartner : ∀ k sent, allowed (partner k sent)) (start : Nat) :
    P (c.runWith partner start).1 := by
  induction h generalizing start with
  | done h => exact h
  | exchange _ ih => exact ih _ (hpartner _ _) _

/-- A result with a property has every weaker one. -/
theorem Always.mono {P Q : α → Prop} {c : Collective α} (h : Always allowed P c)
    (hPQ : ∀ a, P a → Q a) : Always allowed Q c := by
  induction h with
  | done h => exact .done (hPQ _ h)
  | exchange _ ih => exact .exchange ih

/-- The property of the first of two programs is what the second one may rely on. -/
theorem Always.bind {P : α → Prop} {Q : β → Prop} {c : Collective α} {f : α → Collective β}
    (h : Always allowed P c) (hf : ∀ a, P a → Always allowed Q (f a)) :
    Always allowed Q (c >>= f) := by
  induction h with
  | done h => exact hf _ h
  | exchange _ ih => exact .exchange ih

/-- Two programs that go on in the same way with every result that there can be. They are only the
    same if this is so for every answer. -/
theorem Always.bind_congr {P : α → Prop} {c : Collective α} (h : Always anyAnswer P c)
    {f f' : α → Collective β} (hf : ∀ a, P a → f a = f' a) : c >>= f = c >>= f' := by
  induction h with
  | done h => exact hf _ h
  | exchange _ ih =>
    exact congrArg (Collective.exchange _) (funext fun answer => ih answer trivial)

/-- A map that changes no result that there can be changes nothing. -/
theorem Always.map_eq_self {f : α → α} {c : Collective α}
    (h : Always anyAnswer (fun a => f a = a) c) : f <$> c = c := by
  induction h with
  | done h => exact congrArg Collective.done h
  | exchange _ ih =>
    exact congrArg (Collective.exchange _) (funext fun answer => ih answer trivial)

/-- Whatever the exchanges of a program answer, as long as each answer is allowed, if it fails then
    with an error that has the property. -/
def Fails (allowed : Answer → Prop) (P : ε → Prop) (x : ExceptT ε Collective α) : Prop :=
  Always allowed (fun result => ∀ e, result = .error e → P e) x.run

namespace Fails

variable {P : ε → Prop}

/-- An error against a partner whose answers are allowed. -/
theorem runWith {x : ExceptT ε Collective α} (h : Fails allowed P x)
    (hpartner : ∀ k sent, allowed (partner k sent)) {start : Nat} {e : ε}
    (he : (x.run.runWith partner start).1 = .error e) : P e :=
  Always.runWith h hpartner start e he

/-- An error with a property has every weaker one. -/
theorem mono {Q : ε → Prop} {x : ExceptT ε Collective α} (h : Fails allowed P x)
    (hPQ : ∀ e, P e → Q e) : Fails allowed Q x :=
  Always.mono h fun _ hresult e he => hPQ e (hresult e he)

/-- What never fails. -/
theorem ok (a : α) : Fails allowed P (pure a : ExceptT ε Collective α) :=
  .done fun _ h => absurd h (by simp)

/-- What fails in any case. -/
theorem throw {e : ε} (h : P e) : Fails allowed P (throw e : ExceptT ε Collective α) :=
  .done fun _ h' => Except.error.inj h' ▸ h

/-- Two programs one after the other fail with errors of either. -/
theorem bind {x : ExceptT ε Collective α} {f : α → ExceptT ε Collective β} (h : Fails allowed P x)
    (hf : ∀ a, Fails allowed P (f a)) : Fails allowed P (x >>= f) := by
  unfold Fails
  rw [ExceptT.run_bind]
  refine Always.bind h fun result hresult => ?_
  cases result with
  | error e => exact .done fun e' he' => Except.error.inj he' ▸ hresult e rfl
  | ok a => exact hf a

/-- A program whose errors are made into other ones. -/
theorem adapt {ε' : Type} {Q : ε' → Prop} {x : ExceptT ε Collective α} {f : ε → ε'}
    (h : Fails allowed P x) (hf : ∀ e, P e → Q (f e)) : Fails allowed Q (x.adapt f) := by
  unfold Fails
  refine Always.bind h fun result hresult => ?_
  cases result with
  | error e => exact .done fun e' he' => Except.error.inj he' ▸ hf e (hresult e rfl)
  | ok a => exact .done fun _ he' => absurd he' (by simp [Except.mapError])

/-- One program for each element of a list. -/
theorem foldlM {f : β → α → ExceptT ε Collective β} {l : List α} {b : β}
    (h : ∀ b, ∀ a ∈ l, Fails allowed P (f b a)) : Fails allowed P (l.foldlM f b) := by
  induction l generalizing b with
  | nil => exact ok b
  | cons a rest ih =>
    rw [List.foldlM_cons]
    refine (h b a List.mem_cons_self).bind fun b' => ih fun b a ha => ?_
    exact h b a (List.mem_cons_of_mem _ ha)

end Fails

/-- Whatever the exchanges of a program answer, if it succeeds then with a result that has the
    property. -/
def Yields (P : α → Prop) (x : ExceptT ε Collective α) : Prop :=
  Always anyAnswer (fun result => ∀ a, result = .ok a → P a) x.run

namespace Yields

variable {P : α → Prop} {Q : β → Prop}

/-- A program that exchanges nothing succeeds with what it is given. -/
theorem ok {a : α} (h : P a) : Yields P (pure a : ExceptT ε Collective α) :=
  .done fun _ h' => Except.ok.inj h' ▸ h

/-- A program that fails yields nothing, so anything can be said of what it yields. -/
theorem throw (e : ε) : Yields P (throw e : ExceptT ε Collective α) :=
  .done fun _ h => absurd h (by simp)

/-- What the first program yields is what the second one may rely on. -/
theorem bind {x : ExceptT ε Collective α} {f : α → ExceptT ε Collective β} (h : Yields P x)
    (hf : ∀ a, P a → Yields Q (f a)) : Yields Q (x >>= f) := by
  unfold Yields
  rw [ExceptT.run_bind]
  refine Always.bind h fun result hresult => ?_
  cases result with
  | error e => exact .done fun _ h => absurd h (by simp)
  | ok a => exact hf a (hresult a rfl)

/-- Nothing can be said of every program but this. -/
theorem trivial (x : ExceptT ε Collective α) : Yields (fun _ => True) x := by
  unfold Yields
  induction x.run with
  | done a => exact .done fun _ _ => True.intro
  | exchange sent next ih => exact .exchange fun answer _ => ih answer

/-- The last step of a program decides what it succeeds with. -/
theorem of_bind {x : ExceptT ε Collective α} {f : α → ExceptT ε Collective β}
    (hf : ∀ a, Yields Q (f a)) : Yields Q (x >>= f) :=
  (trivial x).bind fun a _ => hf a

/-- Errors that are made into others do not change what a program yields. -/
theorem adapt {ε' : Type} {x : ExceptT ε Collective α} (h : Yields P x) (f : ε → ε') :
    Yields P (x.adapt f) := by
  refine Always.bind h fun result hresult => ?_
  cases result with
  | error e => exact .done fun _ h => absurd h (by simp [Except.mapError])
  | ok a => exact .done fun _ h => hresult _ (by simpa [Except.mapError] using h)

/-- Two programs that go on in the same way with everything that the first one can yield. -/
theorem bind_congr {x : ExceptT ε Collective α} {f f' : α → ExceptT ε Collective β}
    (h : Yields P x) (hf : ∀ a, P a → f a = f' a) : x >>= f = x >>= f' := by
  refine ExceptT.ext ?_
  rw [ExceptT.run_bind, ExceptT.run_bind]
  refine Always.bind_congr h fun result hresult => ?_
  cases result with
  | error e => rfl
  | ok a => exact congrArg ExceptT.run (hf a (hresult a rfl))

end Yields

end MeshExpr.Collective
