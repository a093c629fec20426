import MeshExpr.Proofs.Collective.Dialogue
import MeshExpr.Proofs.Evaluation.Arguments
import MeshExpr.Proofs.Mesh.Bins

namespace MeshExpr

open Collective

/-!
# What filters send

Only the reductions over a field send anything, and only if their field is good for a reduction. An
extremum sends the best candidate of the rank, an average the sum and the number of its samples; a
histogram looks for the bounds that it is not given, the upper one first, and sends its counts if
nothing has gone wrong by then.

* `Inputs.Resolves` — the field of a reduction.
* `Filter.FindsBound` and `Filter.Bins` — what a histogram sends for a bound, and all in all.
* `Filter.Contributes` — what each filter sends.
* `Filter.contributes_of_runs` — and that it does so, whatever the answers are.
-/

/-- The argument names a field that a mesh declares with one component. -/
structure Inputs.Resolves (inputs : Inputs) (ctx : Context) (m : Mesh) (field : String)
    (decl : FieldDecl) : Prop where
  mesh : ctx.mesh = some m
  name : inputs.fieldAt? 0 = some field
  declared : m.schema.get? field = some decl
  scalar : decl.components = 1

namespace Filter

/-! ### What is to be sent -/

/-- The extremum that an answer says, if it is a good answer and says one. -/
def foundIn (which : Extreme) (answer : Answer) : Option Located :=
  match Reduction.readAnswer Located.width answer with
  | .ok parts => which.best (parts.filterMap Located.decode)
  | .error _ => none

/-- How a histogram of a field comes to a bound: what it is given for it, what it sends, and the
    bound, if nothing goes wrong. -/
inductive FindsBound (m : Mesh) (field : String) (decl : FieldDecl) (which : Extreme) :
    Option Value → List (List Float × Answer) → Option Float → Prop where
  | given {value : Value} {n : Number} (h : value.number? = some n) :
      FindsBound m field decl which (some value) [] (some n.toFloat)
  | wrongKind {value : Value} (h : value.number? = none) :
      FindsBound m field decl which (some value) [] none
  /-- It is given none, and looks for the extremum. -/
  | exchange {sent : List Float} {answer : Answer}
      (hsent : sent = Located.encode (which.best (m.candidates field decl)))
      (hwidth : sent.length = 5) :
      FindsBound m field decl which none [(sent, answer)]
        ((foundIn which answer).map Located.value)

/-- The number of bins of a histogram: the number that it is given, or what is usual. -/
inductive NumBins (inputs : Inputs) : Int32 → Prop where
  | given {value : Value} {n : Number} (h : inputs.optional? 1 = some value)
      (hn : value.number? = some n) : NumBins inputs n.toInt32
  | usual (h : inputs.optional? 1 = none) : NumBins inputs defaultBins

/-- What a histogram of a field sends: one extremum for each bound that is left out, the upper one
    first, and then its counts; nothing more once something has gone wrong. -/
inductive Bins (m : Mesh) (field : String) (decl : FieldDecl) (inputs : Inputs) :
    List (List Float × Answer) → Prop where
  | wrongBins {value : Value} (h : inputs.optional? 1 = some value) (hkind : value.number? = none) :
      Bins m field decl inputs []
  | noMax {numBins : Int32} {upper : List (List Float × Answer)} (hbins : NumBins inputs numBins)
      (hmax : FindsBound m field decl .max (inputs.optional? 3) upper none) :
      Bins m field decl inputs upper
  | noMin {numBins : Int32} {upper lower : List (List Float × Answer)} {maxVal : Float}
      (hbins : NumBins inputs numBins)
      (hmax : FindsBound m field decl .max (inputs.optional? 3) upper (some maxVal))
      (hmin : FindsBound m field decl .min (inputs.optional? 2) lower none) :
      Bins m field decl inputs (upper ++ lower)
  /-- The range is empty, or there may not be that many bins. -/
  | refused {numBins : Int32} {upper lower : List (List Float × Answer)} {minVal maxVal : Float}
      (hbins : NumBins inputs numBins)
      (hmax : FindsBound m field decl .max (inputs.optional? 3) upper (some maxVal))
      (hmin : FindsBound m field decl .min (inputs.optional? 2) lower (some minVal))
      (h : ¬(minVal < maxVal ∧ 1 ≤ numBins.toInt ∧ numBins.toInt ≤ 2 ^ 20)) :
      Bins m field decl inputs (upper ++ lower)
  | counted {numBins : Int32} {upper lower : List (List Float × Answer)} {minVal maxVal : Float}
      {sent : List Float} {answer : Answer} (hbins : NumBins inputs numBins)
      (hmax : FindsBound m field decl .max (inputs.optional? 3) upper (some maxVal))
      (hmin : FindsBound m field decl .min (inputs.optional? 2) lower (some minVal))
      (h : minVal < maxVal ∧ 1 ≤ numBins.toInt ∧ numBins.toInt ≤ 2 ^ 20)
      (hsent : sent = Mesh.count sent.length (m.binIndices field decl sent.length minVal maxVal))
      (hwidth : (sent.length : Int) = numBins.toInt) :
      Bins m field decl inputs (upper ++ lower ++ [(sent, answer)])

/-- What a filter sends, each time with the answer. -/
inductive Contributes (ctx : Context) (inputs : Inputs) :
    Filter → List (List Float × Answer) → Prop where
  | fieldMin {m : Mesh} {field : String} {decl : FieldDecl} {sent : List Float} {answer : Answer}
      (h : inputs.Resolves ctx m field decl)
      (hsent : sent = Located.encode (Extreme.min.best (m.candidates field decl)))
      (hwidth : sent.length = 5) : Contributes ctx inputs .fieldMin [(sent, answer)]
  | fieldMax {m : Mesh} {field : String} {decl : FieldDecl} {sent : List Float} {answer : Answer}
      (h : inputs.Resolves ctx m field decl)
      (hsent : sent = Located.encode (Extreme.max.best (m.candidates field decl)))
      (hwidth : sent.length = 5) : Contributes ctx inputs .fieldMax [(sent, answer)]
  | fieldAvg {m : Mesh} {field : String} {decl : FieldDecl} {sent : List Float} {answer : Answer}
      (h : inputs.Resolves ctx m field decl)
      (hsent : sent = [Mesh.sum (m.values field decl), Mesh.countAll (m.values field decl)])
      (hwidth : sent.length = 2) : Contributes ctx inputs .fieldAvg [(sent, answer)]
  | histogram {m : Mesh} {field : String} {decl : FieldDecl}
      {exchanges : List (List Float × Answer)} (h : inputs.Resolves ctx m field decl)
      (hbins : Bins m field decl inputs exchanges) : Contributes ctx inputs .histogram exchanges
  /-- Without a good field, nothing is sent. -/
  | unresolved {filter : Filter} (h : ∀ m field decl, ¬inputs.Resolves ctx m field decl) :
      Contributes ctx inputs filter []
  /-- All other filters send nothing. -/
  | other {filter : Filter} (h : filter.isCollective = false) : Contributes ctx inputs filter []

/-! ### Reductions -/

variable {m : Mesh} {field : String} {decl : FieldDecl} {exchanges : List (List Float × Answer)}

/-- The dialogue of a reduction that exchanges once, and combines what it gets. -/
theorem runs_reduction_iff {α : Type} {sent : List Float}
    {combine : List (List Float) → Except MeshError α} {result : Except MeshError α} :
    Runs (Reduction.exchange sent >>= fun parts => Reduction.ofExcept (combine parts)).run exchanges
        result
      ↔ ∃ answer, exchanges = [(sent, answer)]
        ∧ result = Reduction.readAnswer sent.length answer >>= combine := by
  rw [Reduction.run_exchange_bind]
  constructor
  · intro h
    cases h with
    | exchange h =>
      obtain ⟨rfl, rfl⟩ := runs_done_iff.mp h
      exact ⟨_, rfl, rfl⟩
  · rintro ⟨answer, rfl, rfl⟩
    exact .exchange (.done _)

/-- An extremum is missing if the search has found nothing. -/
theorem toOption_extremumOf (which : Extreme) (field : String) (candidates : List Located) :
    (Mesh.extremumOf which field candidates).toOption = which.best candidates := by
  unfold Mesh.extremumOf
  cases which.best candidates <;> rfl

/-- An extremum exchanges once, whatever it is answered, and sends the best candidate of the rank.
    -/
theorem exists_of_runs_extremum {which : Extreme} (hdecl : m.schema.get? field = some decl)
    (hscalar : decl.components = 1) {result : Except MeshError Located}
    (h : Runs (m.extremum which field).run exchanges result) :
    ∃ answer, exchanges = [(Located.encode (which.best (m.candidates field decl)), answer)]
      ∧ result.toOption = foundIn which answer := by
  rw [Mesh.extremum_eq which hdecl hscalar, runs_reduction_iff] at h
  obtain ⟨answer, rfl, rfl⟩ := h
  refine ⟨answer, rfl, ?_⟩
  rw [Located.length_encode, foundIn]
  cases Reduction.readAnswer Located.width answer with
  | error e => rfl
  | ok parts => exact toOption_extremumOf which field _

/-- An average exchanges once, and sends the sum and the number of the samples of the rank. -/
theorem exists_of_runs_fieldAvg (hdecl : m.schema.get? field = some decl)
    (hscalar : decl.components = 1) {result : Except MeshError Float}
    (h : Runs (m.fieldAvg field).run exchanges result) : ∃ answer, exchanges =
      [([Mesh.sum (m.values field decl), Mesh.countAll (m.values field decl)], answer)] := by
  rw [Mesh.fieldAvg_eq hdecl hscalar, runs_reduction_iff] at h
  obtain ⟨answer, rfl, -⟩ := h
  exact ⟨answer, rfl⟩

/-! ### Steps -/

variable {α β : Type} {ctx : Context} {inputs : Inputs}

/-- A step that sends nothing, and what follows it. -/
theorem runs_ofExcept_bind_iff {x : Except EvalError α} {f : α → Eval β}
    {result : Except EvalError β} :
    Runs (Eval.ofExcept x >>= f).run exchanges result ↔
      (∃ e, x = .error e ∧ exchanges = [] ∧ result = .error e)
        ∨ ∃ a, x = .ok a ∧ Runs (f a).run exchanges result := by
  cases x with
  | error e =>
    have hfails : Runs (Eval.ofExcept (.error e) >>= f).run exchanges result
        ↔ exchanges = [] ∧ result = .error e := runs_done_iff
    rw [hfails]
    simp
  | ok a =>
    have hgoes : Eval.ofExcept (.ok a) >>= f = f a := rfl
    rw [hgoes]
    simp

/-- A reduction, and what makes its result into a value. -/
theorem exists_of_runs_ofReduction {r : Reduction α} {f : α → Eval β} {result : Except EvalError β}
    (hf : ∀ a, ∃ b, f a = pure b) (h : Runs (Eval.ofReduction r >>= f).run exchanges result) :
    ∃ found, Runs r.run exchanges found := by
  have hresult : ∀ {exchanges result}, Runs (Eval.ofReduction r).run exchanges result →
      ∃ found, Runs r.run exchanges found := by
    intro exchanges result h
    obtain ⟨found, hfound, -⟩ := runs_bind_done_iff.mp h
    exact ⟨found, hfound⟩
  rcases runs_exceptBind_iff.mp h with ⟨e, hr, -⟩ | ⟨a, earlier, later, rfl, hr, hf'⟩
  · exact hresult hr
  · -- What makes the value sends nothing.
    obtain ⟨b, hb⟩ := hf a
    rw [hb] at hf'
    obtain ⟨rfl, -⟩ := runs_done_iff.mp hf'
    rw [List.append_nil]
    exact hresult hr

/-- A bound that is left out is searched for. -/
theorem findsBound_of_runs_bound {which : Extreme} (hdecl : m.schema.get? field = some decl)
    (hscalar : decl.components = 1) {result : Except EvalError Float}
    (h : Runs (bound none (m.extremum which field)).run exchanges result) :
    FindsBound m field decl which none exchanges result.toOption := by
  have hprogram : (bound none (m.extremum which field)).run = (m.extremum which field).run >>=
      fun found => .done ((found.mapError EvalError.mesh).map Located.value) := by
    unfold bound
    dsimp only
    rw [ExceptT.run_map, Eval.ofReduction, ExceptT.run_mk, map_eq_pure_bind, bind_assoc]
    rfl
  rw [hprogram] at h
  -- What follows the search sends nothing, so that the dialogue is that of the search.
  obtain ⟨found, hr, rfl⟩ := runs_bind_done_iff.mp h
  obtain ⟨answer, rfl, hfound⟩ := exists_of_runs_extremum hdecl hscalar hr
  have hvalue : ((found.mapError EvalError.mesh).map Located.value).toOption
      = (foundIn which answer).map Located.value := by
    rw [← hfound]
    cases found <;> rfl
  rw [hvalue]
  exact .exchange rfl (Located.length_encode _)

/-- A histogram that looks for a bound, and what follows it. -/
theorem findsBound_of_runs {which : Extreme} {slot : Nat} {port : String}
    (hdecl : m.schema.get? field = some decl) (hscalar : decl.components = 1) {f : Float → Eval α}
    {result : Except EvalError α}
    (h : Runs (Eval.ofExcept (inputs.scalar? slot .histogram port) >>= fun given =>
      bound given (m.extremum which field) >>= f).run exchanges result) :
    FindsBound m field decl which (inputs.optional? slot) exchanges none
      ∨ ∃ x earlier later, exchanges = earlier ++ later
        ∧ FindsBound m field decl which (inputs.optional? slot) earlier (some x)
        ∧ Runs (f x).run later result := by
  rcases runs_ofExcept_bind_iff.mp h with ⟨e, he, rfl, -⟩ | ⟨given, hgiven, h⟩
  · obtain ⟨value, hvalue, hkind⟩ := Inputs.exists_of_scalar?_eq_error he
    rw [hvalue]
    exact .inl (.wrongKind hkind)
  rcases Inputs.scalar?_eq_ok_iff.mp hgiven with ⟨hnone, rfl⟩ | ⟨value, n, hvalue, hn, rfl⟩
  · rw [hnone]
    -- The bound is left out, so that the extremum is searched for.
    rcases runs_exceptBind_iff.mp h with ⟨e, hbound, -⟩ | ⟨x, earlier, later, rfl, hbound, hf⟩
    · exact .inl (findsBound_of_runs_bound hdecl hscalar hbound)
    · exact .inr ⟨x, earlier, later, rfl, findsBound_of_runs_bound hdecl hscalar hbound, hf⟩
  · rw [hvalue]
    exact .inr ⟨_, [], exchanges, rfl, .given hn, h⟩

/-- What a histogram ends with, once its bounds are there. -/
theorem exists_of_runs_counts {minVal maxVal : Float} {numBins : Int32}
    (hdecl : m.schema.get? field = some decl) (hscalar : decl.components = 1)
    {result : Except EvalError Value}
    (h : Runs (do
      if !(minVal < maxVal) then throw (.range .histogram minVal maxVal)
      match binCount? numBins with
      | none => throw (.invalidBinCount .histogram numBins)
      | some bins =>
        let counts ← Eval.ofReduction (m.fieldHistogram field minVal maxVal bins)
        return (Histogram.mk counts minVal maxVal numBins).toValue : Eval Value).run
      exchanges result) :
    (exchanges = [] ∧ ¬(minVal < maxVal ∧ 1 ≤ numBins.toInt ∧ numBins.toInt ≤ 2 ^ 20))
      ∨ ∃ sent answer, exchanges = [(sent, answer)]
        ∧ (minVal < maxVal ∧ 1 ≤ numBins.toInt ∧ numBins.toInt ≤ 2 ^ 20)
        ∧ sent = Mesh.count sent.length (m.binIndices field decl sent.length minVal maxVal)
        ∧ (sent.length : Int) = numBins.toInt := by
  -- The range is checked first, then the number of bins. Only if both are good there is an
  -- exchange.
  by_cases hrange : minVal < maxVal
  · simp only [hrange, decide_true, Bool.not_true, Bool.false_eq_true, ↓reduceIte] at h
    cases hcount : binCount? numBins with
    | none =>
      rw [hcount] at h
      refine .inl ⟨(runs_done_iff.mp h).1, fun hok => ?_⟩
      have hsome : binCount? numBins = some numBins.toInt.toNat :=
        binCount?_eq_some_iff.mpr ⟨hok.2, by omega⟩
      rw [hcount] at hsome
      exact absurd hsome (by simp)
    | some bins =>
      obtain ⟨hbounds, hcast⟩ := binCount?_eq_some_iff.mp hcount
      rw [hcount] at h
      obtain ⟨found, hfound⟩ := exists_of_runs_ofReduction (fun counts => ⟨_, rfl⟩) h
      rw [Mesh.fieldHistogram_eq hdecl hscalar, runs_reduction_iff] at hfound
      obtain ⟨answer, rfl, -⟩ := hfound
      refine .inr ⟨_, answer, rfl, ⟨hrange, hbounds⟩, ?_, ?_⟩
      · rw [Mesh.length_count]
      · rw [Mesh.length_count, hcast]
  · simp only [hrange, decide_false, Bool.not_false, ↓reduceIte] at h
    exact .inl ⟨(runs_done_iff.mp h).1, fun hok => hrange hok.1⟩

/-- The number of bins that a histogram reads from its arguments. -/
theorem numBins_of_scalar? {given : Option Number} :
    inputs.scalar? 1 .histogram "num_bins" = .ok given → NumBins inputs (match given with
      | some n => n.toInt32
      | none => defaultBins) := by
  intro h
  rcases Inputs.scalar?_eq_ok_iff.mp h with ⟨hnone, rfl⟩ | ⟨value, n, hvalue, hn, rfl⟩
  · exact .usual hnone
  · exact .given hvalue hn

/-- Once a histogram has its field, it sends what it is said to send. -/
theorem bins_of_runs (h : inputs.Resolves ctx m field decl) {result : Except EvalError Value}
    (hruns : Runs (computeHistogram ctx inputs).run exchanges result) :
    Bins m field decl inputs exchanges := by
  unfold computeHistogram at hruns
  have hfield : inputs.field ctx 0 .histogram "field" = .ok (m, field) :=
    Inputs.field_eq_ok_iff.mpr
      ⟨h.mesh, h.name, Mesh.isScalarField_iff.mpr ⟨decl, h.declared, h.scalar⟩⟩
  rcases runs_ofExcept_bind_iff.mp hruns with ⟨e, he, -⟩ | ⟨_, hok, hruns⟩
  · simp [hfield] at he
  obtain rfl := Except.ok.inj (hfield.symm.trans hok)
  rcases runs_ofExcept_bind_iff.mp hruns with ⟨e, he, rfl, -⟩ | ⟨given, hgiven, hruns⟩
  · obtain ⟨value, hvalue, hkind⟩ := Inputs.exists_of_scalar?_eq_error he
    exact .wrongBins hvalue hkind
  have hbins := numBins_of_scalar? hgiven
  -- The upper bound comes first. If it is not found, nothing more is sent.
  rcases findsBound_of_runs h.declared h.scalar hruns with
    hmax | ⟨maxVal, upper, rest, rfl, hmax, hruns⟩
  · exact .noMax hbins hmax
  rcases findsBound_of_runs h.declared h.scalar hruns with
    hmin | ⟨minVal, lower, rest, rfl, hmin, hruns⟩
  · exact .noMin hbins hmax hmin
  rcases exists_of_runs_counts h.declared h.scalar hruns with
    ⟨rfl, hrefused⟩ | ⟨sent, answer, rfl, hgood, hsent, hwidth⟩
  · rw [List.append_nil]
    exact .refused hbins hmax hmin hrefused
  · rw [← List.append_assoc]
    exact .counted hbins hmax hmin hgood hsent hwidth

/-! ### Filters -/

/-- The checks that reductions begin with, and what follows them. -/
theorem resolves_of_runs {filter : Filter} {port : String} {f : Mesh × String → Eval α}
    {result : Except EvalError α}
    (h : Runs (Eval.ofExcept (inputs.field ctx 0 filter port) >>= f).run exchanges result) :
    (exchanges = [] ∧ ∀ m field decl, ¬inputs.Resolves ctx m field decl)
      ∨ ∃ m field decl, inputs.Resolves ctx m field decl
        ∧ Runs (f (m, field)).run exchanges result := by
  rcases runs_ofExcept_bind_iff.mp h with ⟨e, he, rfl, -⟩ | ⟨⟨m, field⟩, hfield, hf⟩
  · -- If the field could be resolved, then the checks would have passed.
    refine .inl ⟨rfl, fun m field decl hresolves => ?_⟩
    have hscalar := Mesh.isScalarField_iff.mpr ⟨decl, hresolves.declared, hresolves.scalar⟩
    rw [Inputs.field_eq_ok_iff.mpr ⟨hresolves.mesh, hresolves.name, hscalar⟩] at he
    exact absurd he (by simp)
  · obtain ⟨hmesh, hname, hscalar⟩ := Inputs.field_eq_ok_iff.mp hfield
    obtain ⟨decl, hdecl, hone⟩ := Mesh.isScalarField_iff.mp hscalar
    exact .inr ⟨m, field, decl, ⟨hmesh, hname, hdecl, hone⟩, hf⟩

/-- A filter that makes a value of a reduction of its field. -/
theorem resolves_of_runs_reduction {filter : Filter} {port : String}
    {r : Mesh → String → Reduction α} {f : α → Value} {result : Except EvalError Value}
    (h : Runs (do
      let (m, field) ← Eval.ofExcept (inputs.field ctx 0 filter port)
      return f (← Eval.ofReduction (r m field)) : Eval Value).run exchanges result) :
    (exchanges = [] ∧ ∀ m field decl, ¬inputs.Resolves ctx m field decl)
      ∨ ∃ m field decl found, inputs.Resolves ctx m field decl
        ∧ Runs (r m field).run exchanges found := by
  rcases resolves_of_runs h with hnone | ⟨m, field, decl, hresolves, hruns⟩
  · exact .inl hnone
  · obtain ⟨found, hfound⟩ := exists_of_runs_ofReduction (fun a => ⟨f a, rfl⟩) hruns
    exact .inr ⟨m, field, decl, found, hresolves, hfound⟩

/-- **Every filter sends what it is said to send**, whatever its arguments and the answers are. -/
theorem contributes_of_runs {filter : Filter} {param : Param} {result : Except EvalError Value}
    (h : Runs (filter.compute ctx inputs param).run exchanges result) :
    filter.Contributes ctx inputs exchanges := by
  cases filter with
  | fieldMin =>
    rcases resolves_of_runs_reduction h with ⟨rfl, hnone⟩ | ⟨m, field, decl, _, hresolves, hruns⟩
    · exact .unresolved hnone
    · obtain ⟨answer, rfl, -⟩ := exists_of_runs_extremum hresolves.declared hresolves.scalar hruns
      exact .fieldMin hresolves rfl (Located.length_encode _)
  | fieldMax =>
    rcases resolves_of_runs_reduction h with ⟨rfl, hnone⟩ | ⟨m, field, decl, _, hresolves, hruns⟩
    · exact .unresolved hnone
    · obtain ⟨answer, rfl, -⟩ := exists_of_runs_extremum hresolves.declared hresolves.scalar hruns
      exact .fieldMax hresolves rfl (Located.length_encode _)
  | fieldAvg =>
    rcases resolves_of_runs_reduction h with ⟨rfl, hnone⟩ | ⟨m, field, decl, _, hresolves, hruns⟩
    · exact .unresolved hnone
    · obtain ⟨answer, rfl⟩ := exists_of_runs_fieldAvg hresolves.declared hresolves.scalar hruns
      exact .fieldAvg hresolves rfl rfl
  | histogram =>
    rcases resolves_of_runs h with ⟨rfl, hnone⟩ | ⟨m, field, decl, hresolves, -⟩
    · exact .unresolved hnone
    · exact .histogram hresolves (bins_of_runs hresolves h)
  | _ =>
    -- No other filter has a collective program.
    have hnothing : exchanges = [] := by cases param <;> exact (runs_done_iff.mp h).1
    rw [hnothing]
    exact .other rfl

end Filter

end MeshExpr
