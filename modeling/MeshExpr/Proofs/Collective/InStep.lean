import MeshExpr.Collective.Ranks
import MeshExpr.Proofs.Checked

namespace MeshExpr.Collective

/-!
# Programs in step

Two ranks never wait for each other in vain if their programs exchange equally often, whatever the
exchanges answer. `InStep` says this of two programs, and also that what they contribute to an
exchange has the same width and that their results are related. It says nothing about the floats
that are contributed: these differ from rank to rank.

* `InStep.bind`, `InStep.exceptBind`, `InStep.foldlM` and `InStep.mapM` — programs in step can be
  put together to longer ones.
* `counted` — a program that also notes the widths of its contributions; `runWith_counted` says that
  it notes what is sent, and `InStep.counted` that programs in step note the same.
* `lockstep_of_inStep` — a group of programs in step does not stall, and the results of its ranks
  are related.
-/

variable {α β γ δ ε : Type}

/-- Whatever the exchanges answer, the two programs exchange equally often, contribute lists of the
    same width to each exchange, and come to related results. -/
inductive InStep (R : α → β → Prop) : Collective α → Collective β → Prop where
  | done {a : α} {b : β} (h : R a b) : InStep R (.done a) (.done b)
  | exchange {sent sent' : List Float} {next : Answer → Collective α}
      {next' : Answer → Collective β} (width : sent.length = sent'.length)
      (h : ∀ answer, InStep R (next answer) (next' answer)) :
      InStep R (.exchange sent next) (.exchange sent' next')

namespace InStep

variable {R : α → β → Prop} {S : γ → δ → Prop}

/-! ### Putting programs together -/

/-- A program is in step with itself. -/
theorem refl (c : Collective α) : InStep Eq c c := by
  induction c with
  | done a => exact .done rfl
  | exchange sent next ih => exact .exchange rfl ih

/-- If two programs are in step, and what follows them is for related results, so is the whole. -/
theorem bind {c : Collective α} {c' : Collective β} {f : α → Collective γ} {f' : β → Collective δ}
    (h : InStep R c c') (hf : ∀ a b, R a b → InStep S (f a) (f' b)) :
    InStep S (c >>= f) (c' >>= f') := by
  induction h with
  | done hab => exact hf _ _ hab
  | exchange width _ ih => exact .exchange width ih

/-- Results that are made into others leave the exchanges as they are. -/
theorem map {c : Collective α} {c' : Collective β} {f : α → γ} {f' : β → δ} (h : InStep R c c')
    (hf : ∀ a b, R a b → S (f a) (f' b)) : InStep S (f <$> c) (f' <$> c') := by
  rw [map_eq_pure_bind, map_eq_pure_bind]
  exact h.bind fun a b hab => .done (hf a b hab)

/-- Programs that may fail: a failure ends both of them, with the same error. -/
theorem exceptBind {x x' : ExceptT ε Collective α} {f f' : α → ExceptT ε Collective β}
    (h : InStep Eq x.run x'.run) (hf : ∀ a, InStep Eq (f a).run (f' a).run) :
    InStep Eq (x >>= f).run (x' >>= f').run := by
  rw [ExceptT.run_bind, ExceptT.run_bind]
  refine h.bind fun a b hab => ?_
  subst hab
  cases a with
  | error e => exact .done rfl
  | ok a => exact hf a

/-- So do errors that are made into others. -/
theorem adapt {x x' : ExceptT ε Collective α} {ε' : Type} (f : ε → ε')
    (h : InStep Eq x.run x'.run) : InStep Eq (x.adapt f).run (x'.adapt f).run :=
  h.map fun _ _ hab => congrArg _ hab

/-- Two loops over the same list are in step if their bodies are. -/
theorem foldlM {f f' : β → α → ExceptT ε Collective β} {l : List α} {b : β}
    (h : ∀ b, ∀ a ∈ l, InStep Eq (f b a).run (f' b a).run) :
    InStep Eq (l.foldlM f b).run (l.foldlM f' b).run := by
  induction l generalizing b with
  | nil => exact refl _
  | cons a rest ih =>
    rw [List.foldlM_cons, List.foldlM_cons]
    refine (h b a List.mem_cons_self).exceptBind fun b' => ih fun b a ha => ?_
    exact h b a (List.mem_cons_of_mem _ ha)

/-- One program for each element of a list, in step element by element. -/
theorem mapM {f f' : α → ExceptT ε Collective β} {l : List α}
    (h : ∀ a ∈ l, InStep Eq (f a).run (f' a).run) :
    InStep Eq (l.mapM f).run (l.mapM f').run := by
  induction l with
  | nil => exact refl _
  | cons a rest ih =>
    rw [List.mapM_cons, List.mapM_cons]
    refine (h a List.mem_cons_self).exceptBind fun b => ?_
    exact (ih fun a ha => h a (List.mem_cons_of_mem _ ha)).exceptBind fun bs => refl _

end InStep

/-! ### Widths of contributions -/

/-- The program that also gives the widths of its contributions, in order. -/
def counted : Collective α → Collective (α × List Nat)
  | done a => done (a, [])
  | exchange sent next => exchange sent fun answer =>
      Prod.map id (sent.length :: ·) <$> (next answer).counted

/-- A map of the results is applied when everything has been sent. -/
theorem runWith_map (partner : Nat → List Float → Answer) (start : Nat) (f : α → β)
    (c : Collective α) :
    (f <$> c).runWith partner start
      = (f (c.runWith partner start).1, (c.runWith partner start).2) := by
  induction c generalizing start with
  | done a => rfl
  | exchange sent next ih =>
    have hnext := ih (partner start sent) (start + 1)
    exact congrArg (fun run : β × List (List Float) => (run.1, sent :: run.2)) hnext

/-- The widths are those of what the program sends, to whatever partner. -/
theorem runWith_counted (partner : Nat → List Float → Answer) (start : Nat) (c : Collective α) :
    c.counted.runWith partner start
      = (((c.runWith partner start).1, (c.runWith partner start).2.map List.length),
        (c.runWith partner start).2) := by
  induction c generalizing start with
  | done a => rfl
  | exchange sent next ih =>
    have hnext := ih (partner start sent) (start + 1)
    simp only [counted, runWith, runWith_map, hnext, List.map_cons, Prod.map_apply, id_eq]

/-- Programs in step contribute lists of the same widths. -/
theorem InStep.counted {R : α → β → Prop} {c : Collective α} {c' : Collective β}
    (h : InStep R c c') :
    InStep (fun x y => R x.1 y.1 ∧ x.2 = y.2) c.counted c'.counted := by
  induction h with
  | done hab => exact .done ⟨hab, rfl⟩
  | exchange width _ ih =>
    refine .exchange width fun answer => (ih answer).map fun x y hxy => ⟨hxy.1, ?_⟩
    show _ :: x.2 = _ :: y.2
    rw [width, hxy.2]

/-! ### Groups in step -/

/-- A group whose programs are in step with the one of the lowest rank does not stall, and the
    results of all ranks are related to one. -/
theorem lockstep_of_inStep {R : α → α → Prop} {lowest : Collective α}
    {others : List (Collective α)} (h : ∀ c ∈ lowest :: others, InStep R lowest c) :
    ∃ a results, lockstep lowest others = some results ∧ results.length = others.length + 1
      ∧ ∀ b ∈ results, R a b := by
  induction lowest generalizing others with
  | done a =>
    have hdone : ∀ c ∈ others, ∃ b, c.result? = some b := by
      intro c hc
      cases h c (List.mem_cons_of_mem _ hc) with
      | done => exact ⟨_, rfl⟩
    obtain ⟨bs, hbs⟩ := exists_forall₂ hdone
    refine ⟨a, a :: bs, ?_, by rw [List.length_cons, hbs.length_eq], fun b hb => ?_⟩
    · unfold lockstep
      rw [mapM_eq_some_iff.mpr hbs]
      rfl
    · rcases List.mem_cons.mp hb with rfl | hb
      · cases h _ List.mem_cons_self with
        | done hab => exact hab
      · obtain ⟨c, hc, hresult⟩ := exists_of_forall₂ hbs.flip hb
        cases h c (List.mem_cons_of_mem _ hc) with
        | done hab => exact Option.some.inj hresult ▸ hab
  | exchange sent next ih =>
    have hsent : ∀ c ∈ others, ∃ part, c.contribution? = some part := by
      intro c hc
      cases h c (List.mem_cons_of_mem _ hc) with
      | exchange => exact ⟨_, rfl⟩
    obtain ⟨parts, hparts⟩ := exists_forall₂ hsent
    -- All ranks get one answer, and go on in step.
    let answer : Answer := .ok (sent :: parts)
    have hnext : ∀ c ∈ next answer :: others.map (resume answer), InStep R (next answer) c := by
      intro c hc
      rw [show next answer = resume answer (.exchange sent next) from rfl, ← List.map_cons] at hc
      obtain ⟨c', hc', rfl⟩ := List.mem_map.mp hc
      cases h c' hc' with
      | exchange width hnext => exact hnext _
    obtain ⟨a, results, hresults, hlength, hR⟩ := ih answer hnext
    refine ⟨a, results, ?_, by rw [hlength, List.length_map], hR⟩
    unfold lockstep
    rw [mapM_eq_some_iff.mpr hparts]
    exact hresults

end MeshExpr.Collective
