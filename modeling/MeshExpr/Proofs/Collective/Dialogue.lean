import MeshExpr.Proofs.Collective.Partner

namespace MeshExpr.Collective

/-!
# Dialogues

A dialogue is what a program has sent, each time with the answer, together with the result that it
has come to. What is sent next can depend on the answers so far, so a dialogue shows more of a
program than what has been sent.

* `Runs` — the dialogues of a program.
* `exists_runs` — every partner leads to one.
* `Always.of_runs` — what always holds of a result holds of the result of a dialogue with answers
  that are allowed.
* `runs_bind_iff`, `runs_exceptBind_iff` — a dialogue of two programs one after the other is one of
  the first and then one of the second.
-/

variable {α β ε : Type}

/-- The program sends and is answered as said, and comes to the result. -/
inductive Runs : Collective α → List (List Float × Answer) → α → Prop where
  | done (a : α) : Runs (.done a) [] a
  | exchange {sent : List Float} {next : Answer → Collective α} {answer : Answer}
      {exchanges : List (List Float × Answer)} {a : α} (h : Runs (next answer) exchanges a) :
      Runs (.exchange sent next) ((sent, answer) :: exchanges) a

variable {exchanges : List (List Float × Answer)}

/-- A program that is done exchanges nothing. -/
theorem runs_done_iff {a b : α} : Runs (.done a) exchanges b ↔ exchanges = [] ∧ b = a := by
  constructor
  · rintro ⟨⟩
    exact ⟨rfl, rfl⟩
  · rintro ⟨rfl, rfl⟩
    exact .done _

/-- Against a partner, a program has the dialogue that the partner's answers make. -/
theorem exists_runs (c : Collective α) (partner : Nat → List Float → Answer) (start : Nat) :
    ∃ exchanges, Runs c exchanges (c.runWith partner start).1
      ∧ exchanges.map Prod.fst = (c.runWith partner start).2
      ∧ ∀ (k : Nat) sent answer, exchanges[k]? = some (sent, answer) →
        answer = partner (start + k) sent := by
  -- The partner counts the exchanges, so that the rest of the program starts one further on.
  induction c generalizing start with
  | done a => exact ⟨[], .done a, rfl, by simp⟩
  | exchange sent next ih =>
    obtain ⟨exchanges, hruns, hsent, hanswers⟩ := ih (partner start sent) (start + 1)
    refine ⟨(sent, partner start sent) :: exchanges, .exchange hruns, ?_, ?_⟩
    · rw [List.map_cons, hsent]
      rfl
    · intro k sent' answer h
      cases k with
      | zero =>
        obtain ⟨rfl, rfl⟩ := Prod.mk.inj (Option.some.inj h)
        rfl
      | succ k =>
        rw [← Nat.add_assoc, Nat.add_right_comm]
        exact hanswers k sent' answer h

/-- What always holds of a result holds at the end of a dialogue whose answers are allowed. -/
theorem Always.of_runs {allowed : Answer → Prop} {P : α → Prop} {c : Collective α} {a : α}
    (h : Always allowed P c) (hruns : Runs c exchanges a)
    (hallowed : ∀ exchanged ∈ exchanges, allowed exchanged.2) : P a := by
  induction hruns with
  | done a =>
    cases h with
    | done h => exact h
  | exchange _ ih =>
    cases h with
    | exchange h =>
      obtain ⟨hfirst, hlater⟩ := List.forall_mem_cons.mp hallowed
      exact ih (h _ hfirst) hlater

/-! ### Programs one after the other -/

/-- A dialogue of two programs one after the other is one of the first and then one of the second,
    which depends on what the first has come to. -/
theorem runs_bind_iff {c : Collective α} {f : α → Collective β} {b : β} :
    Runs (c >>= f) exchanges b ↔ ∃ a earlier later, exchanges = earlier ++ later
      ∧ Runs c earlier a ∧ Runs (f a) later b := by
  -- Along the first program; what it has exchanged is split off the front.
  induction c generalizing exchanges with
  | done a =>
    constructor
    · exact fun h => ⟨a, [], exchanges, rfl, .done a, h⟩
    · rintro ⟨a', earlier, later, rfl, hc, hf⟩
      obtain ⟨rfl, rfl⟩ := runs_done_iff.mp hc
      exact hf
  | exchange sent next ih =>
    constructor
    · rintro ⟨⟩
      rename_i answer exchanges h
      obtain ⟨a, earlier, later, rfl, hc, hf⟩ := (ih answer).mp h
      exact ⟨a, _, later, rfl, .exchange hc, hf⟩
    · rintro ⟨a, earlier, later, rfl, hc, hf⟩
      cases hc with
      | exchange hc => exact .exchange ((ih _).mpr ⟨a, _, later, rfl, hc, hf⟩)

/-- A program whose result is only made into another one. -/
theorem runs_bind_done_iff {c : Collective α} {f : α → β} {b : β} :
    Runs (c >>= fun a => .done (f a)) exchanges b ↔ ∃ a, Runs c exchanges a ∧ b = f a := by
  rw [runs_bind_iff]
  constructor
  · rintro ⟨a, earlier, later, rfl, hc, hdone⟩
    obtain ⟨rfl, rfl⟩ := runs_done_iff.mp hdone
    exact ⟨a, by rwa [List.append_nil], rfl⟩
  · rintro ⟨a, hc, rfl⟩
    exact ⟨a, exchanges, [], by rw [List.append_nil], hc, .done _⟩

/-- Two programs that may fail: the first fails, or it succeeds and the second goes on. -/
theorem runs_exceptBind_iff {x : ExceptT ε Collective α} {f : α → ExceptT ε Collective β}
    {result : Except ε β} :
    Runs (x >>= f).run exchanges result ↔
      (∃ e, Runs x.run exchanges (.error e) ∧ result = .error e)
        ∨ ∃ a earlier later, exchanges = earlier ++ later ∧ Runs x.run earlier (.ok a)
          ∧ Runs (f a).run later result := by
  rw [ExceptT.run_bind, runs_bind_iff]
  constructor
  · rintro ⟨_ | a, earlier, later, rfl, hx, hf⟩
    -- After a failure there is nothing more to exchange.
    · obtain ⟨rfl, rfl⟩ := runs_done_iff.mp hf
      exact .inl ⟨_, by rwa [List.append_nil], rfl⟩
    · exact .inr ⟨a, earlier, later, rfl, hx, hf⟩
  · rintro (⟨e, hx, rfl⟩ | ⟨a, earlier, later, rfl, hx, hf⟩)
    · exact ⟨.error e, exchanges, [], by rw [List.append_nil], hx, .done _⟩
    · exact ⟨.ok a, earlier, later, rfl, hx, hf⟩

end MeshExpr.Collective
