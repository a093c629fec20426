import MeshExpr.Proofs.Evaluation.OwnRange
import MeshExpr.Proofs.Evaluation.Safety

namespace MeshExpr

open Collective

/-!
# Ports and the arguments of filters

The catalog marks the ports whose argument may be empty. The filters know nothing of these marks:
each of them takes its arguments one by one, and fails at the first one that it cannot do without.
Both agree.

* `Filter.Mismatched` and `Filter.OnlyMismatched` — steps that fail for an argument.
* `Filter.mismatched_compute` — an empty argument at a port that needs one.
* `Inputs.filled` — the arguments of a histogram, with others in the place of the empty ones.
* `Mesh.runAlone_histogram_filled` — which arguments a histogram takes for empty ones.
* `Filter.KeepsToPorts`, `Mesh.HasDefaults` and `Filter.obeysPorts` — all of this.
-/

/-! ### Arguments that cannot be left out -/

namespace Inputs

variable {inputs : Inputs} {slot : Nat} {value : Value}

/-- An argument that is empty is as good as none. -/
theorem optional?_of_isEmpty (hvalue : inputs[slot]? = some value) (hempty : value.isEmpty = true) :
    inputs.optional? slot = none := by
  unfold optional?
  rw [hvalue]
  simp [hempty]

/-- If a filter finds none in a place that is there, then it is empty. -/
theorem isEmpty_of_optional? (hvalue : inputs[slot]? = some value)
    (hnone : inputs.optional? slot = none) : value.isEmpty = true := by
  unfold optional? at hnone
  rw [hvalue] at hnone
  simpa using hnone

end Inputs

namespace Filter

variable {α β : Type} {filter : Filter} {ctx : Context} {inputs : Inputs} {slot : Nat}
  {port : String} {param : Param}

/-- A step fails because of an argument. -/
def Mismatched (filter : Filter) (x : Except EvalError α) : Prop :=
  ∃ mismatch, x = .error (.typeMismatch filter mismatch)

/-- A step fails because of an argument if it fails. -/
def OnlyMismatched (filter : Filter) (x : Except EvalError α) : Prop :=
  ∀ e, x = .error e → ∃ mismatch, e = .typeMismatch filter mismatch

/-- If the first of two steps fails because of an argument, then so do both. -/
theorem Mismatched.bind {x : Except EvalError α} (h : Mismatched filter x)
    (f : α → Except EvalError β) : Mismatched filter (x >>= f) := by
  obtain ⟨mismatch, rfl⟩ := h
  exact ⟨mismatch, rfl⟩

/-- Two steps of which the second one fails in any case. -/
theorem OnlyMismatched.bind {x : Except EvalError α} (h : OnlyMismatched filter x)
    {f : α → Except EvalError β} (hf : ∀ a, Mismatched filter (f a)) :
    Mismatched filter (x >>= f) := by
  cases x with
  | error e =>
    obtain ⟨mismatch, rfl⟩ := h e rfl
    exact ⟨mismatch, rfl⟩
  | ok a => exact hf a

/-- An argument that is needed and is missing or empty. -/
theorem mismatched_required (hempty : inputs.optional? slot = none) :
    Mismatched filter (inputs.required slot filter port) := by
  unfold Inputs.required
  rw [hempty]
  exact ⟨_, rfl⟩

/-- An argument that is needed fails in no other way. -/
theorem onlyMismatched_required : OnlyMismatched filter (inputs.required slot filter port) := by
  intro e he
  unfold Inputs.required at he
  split at he
  · exact absurd he (by simp)
  · exact ⟨_, (Except.error.inj he).symm⟩

/-- A view of an argument fails because of the argument only. -/
theorem onlyMismatched_view {see : Value → Option α} {mismatch : ValueKind → Mismatch}
    (value : Value) : OnlyMismatched filter (Inputs.view see filter mismatch value) := by
  intro e he
  unfold Inputs.view at he
  split at he
  · exact absurd he (by simp)
  · exact ⟨_, (Except.error.inj he).symm⟩

/-- An argument that is needed, and that has to be of some kind. -/
theorem onlyMismatched_required_view {see : Value → Option α} {mismatch : ValueKind → Mismatch} :
    OnlyMismatched filter
      (inputs.required slot filter port >>= Inputs.view see filter mismatch) := by
  intro e he
  cases hvalue : inputs.required slot filter port with
  | error e' =>
    rw [hvalue] at he
    exact Except.error.inj he ▸ onlyMismatched_required e' hvalue
  | ok value =>
    rw [hvalue] at he
    exact onlyMismatched_view value e he

/-- It does not matter what is wanted of an argument that is not there. -/
theorem mismatched_required_view {see : Value → Option α} {mismatch : ValueKind → Mismatch}
    (hempty : inputs.optional? slot = none) : Mismatched filter
      (inputs.required slot filter port >>= Inputs.view see filter mismatch) :=
  (mismatched_required hempty).bind _

/-- A reduction whose field is not given does not even look for a mesh. -/
theorem mismatched_field (hempty : inputs.optional? 0 = none) :
    Mismatched filter (inputs.field ctx 0 filter port) :=
  (mismatched_required hempty).bind _

/-- A program that begins with a step that fails because of an argument. -/
theorem run_ofExcept_bind_of_mismatched {x : Except EvalError α} (h : Mismatched filter x)
    (f : α → Eval β) : ∃ mismatch, (Eval.ofExcept x >>= f).run
      = .done (.error (.typeMismatch filter mismatch)) := by
  obtain ⟨mismatch, rfl⟩ := h
  exact ⟨mismatch, rfl⟩

/-- A program that is such a step. -/
theorem run_ofExcept_of_mismatched {x : Except EvalError α} (h : Mismatched filter x) :
    ∃ mismatch, (Eval.ofExcept x).run = .done (.error (.typeMismatch filter mismatch)) := by
  obtain ⟨mismatch, rfl⟩ := h
  exact ⟨mismatch, rfl⟩

/-- **An argument that is needed.** If it is missing or empty, then the filter fails because of an
    argument, before anything is exchanged. -/
theorem mismatched_compute {params : RawParams} (hcheck : filter.paramSpec.check params = .ok param)
    {port : Port} (hport : filter.ports[slot]? = some port) (hneeded : port.optional = false)
    (hempty : inputs.optional? slot = none) : ∃ mismatch, (filter.compute ctx inputs param).run
      = .done (.error (.typeMismatch filter mismatch)) := by
  have hslot := (List.getElem?_eq_some_iff.mp hport).1
  unfold compute
  cases filter <;> simp only [ports, List.length_nil, List.length_cons] at hslot
  case binaryOp =>
    -- The only filter that looks at its parameter before its arguments.
    have hkind := ParamSpec.kind?_of_check hcheck
    cases param with
    | op op =>
      obtain rfl | rfl : slot = 0 ∨ slot = 1 := by omega
      · exact run_ofExcept_of_mismatched ((mismatched_required hempty).bind _)
      · exact run_ofExcept_of_mismatched (onlyMismatched_required.bind fun _ =>
          (mismatched_required hempty).bind _)
    | _ => exact absurd hkind (by simp [Param.kind?, paramSpec, ParamSpec.kind?])
  case scalarMin | scalarMax =>
    obtain rfl | rfl : slot = 0 ∨ slot = 1 := by omega
    · exact run_ofExcept_of_mismatched ((mismatched_required_view hempty).bind _)
    · exact run_ofExcept_of_mismatched (onlyMismatched_required_view.bind fun _ =>
        (mismatched_required_view hempty).bind _)
  case fieldMin | fieldMax | fieldAvg =>
    obtain rfl : slot = 0 := by omega
    exact run_ofExcept_bind_of_mismatched (mismatched_field hempty) _
  case histogram =>
    -- The other ports do not need an argument.
    obtain rfl : slot = 0 := by
      by_contra hne
      obtain rfl | rfl | rfl : slot = 1 ∨ slot = 2 ∨ slot = 3 := by omega
      all_goals exact absurd (Option.some.inj hport ▸ hneeded) (by simp)
    exact run_ofExcept_bind_of_mismatched (mismatched_field hempty) _
  case position | magnitude =>
    obtain rfl : slot = 0 := by omega
    exact run_ofExcept_of_mismatched ((mismatched_required hempty).bind _)
  case vector =>
    obtain rfl | rfl | rfl : slot = 0 ∨ slot = 1 ∨ slot = 2 := by omega
    · exact run_ofExcept_of_mismatched ((mismatched_required_view hempty).bind _)
    · exact run_ofExcept_of_mismatched (onlyMismatched_required_view.bind fun _ =>
        (mismatched_required_view hempty).bind _)
    · exact run_ofExcept_of_mismatched (onlyMismatched_required_view.bind fun _ =>
        onlyMismatched_required_view.bind fun _ => (mismatched_required_view hempty).bind _)
  all_goals omega

/-- **Arguments that are not needed.** If no other ones are empty, then the filter does not fail for
    want of an argument, whatever the exchanges answer. -/
theorem compute_ne_notSupplied
    (hsupplied : ∀ slot port, filter.ports[slot]? = some port → port.optional = false →
      inputs.optional? slot ≠ none) (partner : Nat → List Float → Answer) (start : Nat)
    (other : Filter) (port : String) :
    ((filter.compute ctx inputs param).run.runWith partner start).1
      ≠ .error (.typeMismatch other (.notSupplied port)) := by
  intro hfailed
  have hfails : Fails anyAnswer (filter.Cause anyAnswer ctx inputs param)
      (filter.compute ctx inputs param) := compute_fails ..
  obtain ⟨-, slot, hport, hempty⟩ :=
    (hfails.runWith (fun _ _ => trivial) hfailed).exists_of_notSupplied
  exact hsupplied slot _ hport rfl hempty

end Filter

/-! ### Arguments of a histogram that can be left out -/

/-- Arguments with others in the place of the empty ones. -/
def Inputs.filled (inputs defaults : Inputs) : Inputs :=
  List.zipWith (fun given default => if given.isEmpty then default else given) inputs defaults

/-- What a histogram takes for arguments that are empty. The field cannot be left out. -/
def Filter.histogramDefaults (least greatest : Float) : Inputs :=
  [.empty, .int 256, .float least, .float greatest]

namespace Inputs

variable {inputs defaults : Inputs} {slot : Nat} {default : Value}

/-- Empty arguments are replaced, and the others are left alone. -/
theorem optional?_filled (hslot : slot < inputs.length) (hdefault : defaults[slot]? = some default)
    (hgiven : default.isEmpty = false) :
    (inputs.filled defaults).optional? slot = some ((inputs.optional? slot).getD default) := by
  unfold optional? filled
  rw [List.getElem?_zipWith, List.getElem?_eq_getElem hslot, hdefault]
  cases hempty : inputs[slot].isEmpty <;> simp [Option.filter, hempty, hgiven]

/-- The name of a field is not empty, so it is left alone. -/
theorem fieldAt?_filled {field : String} (hfield : inputs.fieldAt? slot = some field)
    (hdefault : defaults[slot]? = some default) :
    (inputs.filled defaults).fieldAt? slot = some field := by
  unfold fieldAt? filled at *
  obtain ⟨value, hvalue, hname⟩ := Option.bind_eq_some_iff.mp hfield
  have hgiven : value.isEmpty = false := by
    rcases value with ⟨_ | _ | _ | _ | _ | _, attrs⟩ <;> simp_all [Value.isEmpty, Value.fieldRef?]
  rw [List.getElem?_zipWith, hvalue, hdefault]
  simp [hgiven, hname]

end Inputs

/-- A step that has succeeded. -/
theorem Eval.ofExcept_ok_bind {α β : Type} (a : α) (f : α → Eval β) :
    ofExcept (.ok a) >>= f = f a := rfl

namespace Mesh

variable {m : Mesh} {field : String} {decl : FieldDecl}

/-- A field with a sample that is a number has an extremum. -/
theorem exists_runAlone_extremum (which : Extreme) (hdecl : m.schema.get? field = some decl)
    (hscalar : decl.components = 1)
    (hsample : ∃ x ∈ Block.samplesOf field m.blocks, x.isNaN = false) :
    ∃ c, (m.extremum which field).run.runAlone = .ok c := by
  obtain ⟨x, hx, hnumber⟩ := hsample
  have hmem : x ∈ (m.candidates field decl).map Located.value := by
    rw [map_value_candidates, List.mem_filter]
    exact ⟨hx, by rw [hnumber]; rfl⟩
  rw [runAlone_extremum which hdecl hscalar]
  unfold extremumOf
  -- Without a best candidate there would be no candidate at all.
  cases hbest : which.best (m.candidates field decl) with
  | none =>
    rw [Extreme.best_eq_none hbest] at hmem
    exact absurd hmem List.not_mem_nil
  | some c => exact ⟨c, rfl⟩

/-- An argument that is left out is as good as one with which the program goes on in the same
    way. -/
theorem runAlone_scalar?_filled {α : Type} {inputs inputs' : Inputs} {slot : Nat} {port : String}
    {default : Value} {n : Number} {f f' : Option Number → Eval α}
    (hfilled : inputs'.optional? slot = some ((inputs.optional? slot).getD default))
    (hnumber : default.number? = some n)
    (hdefault : (f none).run.runAlone = (f' (some n)).run.runAlone)
    (hgiven : ∀ given, (f given).run.runAlone = (f' given).run.runAlone) :
    (Eval.ofExcept (inputs.scalar? slot .histogram port) >>= f).run.runAlone
      = (Eval.ofExcept (inputs'.scalar? slot .histogram port) >>= f').run.runAlone := by
  unfold Inputs.scalar?
  rw [hfilled]
  -- What was given stays; what was left out is filled in.
  cases inputs.optional? slot with
  | none =>
    have hview : Inputs.view Value.number? .histogram (.notScalar port) default = .ok n :=
      Inputs.view_eq_ok_iff.mpr hnumber
    dsimp only [Option.getD_none]
    rw [hview]
    exact hdefault
  | some value =>
    rw [Option.getD_some, runAlone_run_bind, runAlone_run_bind]
    exact congrArg _ (funext hgiven)

/-- The same for a bound: the extremum of the field. -/
theorem runAlone_bound_filled {inputs inputs' : Inputs} {slot : Nat} {port : String}
    {extremum : Reduction Located} {c : Located} {f f' : Float → Eval Value}
    (hextremum : extremum.run.runAlone = .ok c)
    (hfilled : inputs'.optional? slot = some ((inputs.optional? slot).getD (.float c.value)))
    (hf : ∀ x, (f x).run.runAlone = (f' x).run.runAlone) :
    (Eval.ofExcept (inputs.scalar? slot .histogram port) >>= fun given =>
        Filter.bound given extremum >>= f).run.runAlone
      = (Eval.ofExcept (inputs'.scalar? slot .histogram port) >>= fun given =>
        Filter.bound given extremum >>= f').run.runAlone := by
  refine runAlone_scalar?_filled hfilled rfl ?_ fun given => ?_
  · rw [runAlone_run_bind_of_ok (runAlone_bound hextremum)]
    exact hf c.value
  · rw [runAlone_run_bind, runAlone_run_bind]
    exact congrArg _ (funext hf)

/-- **A histogram takes 256 for a number of bins that is left out, and the extrema of the field for
    bounds that are.** -/
theorem runAlone_histogram_filled {least greatest : Located} {inputs : Inputs} {history : History}
    {cycleVar : String} (hscalar : m.isScalarField field = true)
    (hleast : (m.fieldMin field).run.runAlone = .ok least)
    (hgreatest : (m.fieldMax field).run.runAlone = .ok greatest)
    (hlength : inputs.length = Filter.histogram.ports.length)
    (hname : inputs.fieldAt? 0 = some field) (param : Param) :
    (Filter.histogram.compute ⟨some m, history, cycleVar⟩ inputs param).run.runAlone
      = (Filter.histogram.compute ⟨some m, history, cycleVar⟩ (inputs.filled
        (Filter.histogramDefaults least.value greatest.value)) param).run.runAlone := by
  have hslot : ∀ slot < 4, slot < inputs.length := fun slot hslot => hlength ▸ hslot
  set defaults := Filter.histogramDefaults least.value greatest.value
  have hbins := Inputs.optional?_filled (hslot 1 (by decide))
    (show defaults[1]? = some (.int 256) from rfl) rfl
  have hmin := Inputs.optional?_filled (hslot 2 (by decide))
    (show defaults[2]? = some (.float least.value) from rfl) rfl
  have hmax := Inputs.optional?_filled (hslot 3 (by decide))
    (show defaults[3]? = some (.float greatest.value) from rfl) rfl
  show (Filter.computeHistogram _ _).run.runAlone = (Filter.computeHistogram _ _).run.runAlone
  unfold Filter.computeHistogram
  rw [Inputs.field_eq_ok_iff.mpr ⟨rfl, hname, hscalar⟩,
    Inputs.field_eq_ok_iff.mpr ⟨rfl, Inputs.fieldAt?_filled hname rfl, hscalar⟩]
  simp only [Eval.ofExcept_ok_bind]
  -- With or without a number of bins, the upper bound comes next, and then the lower one.
  refine runAlone_scalar?_filled hbins rfl ?_ fun given => ?_
  all_goals
    exact runAlone_bound_filled hgreatest hmax fun maxVal =>
      runAlone_bound_filled hleast hmin fun minVal => rfl

end Mesh

/-! ### The main result -/

/-- A filter obeys the marks of its ports. -/
structure Filter.KeepsToPorts (filter : Filter) : Prop where
  /-- If an argument is empty at a port that needs one, the filter fails because of an argument,
      whatever the others are, and exchanges nothing. -/
  needed : ∀ params param, filter.paramSpec.check params = .ok param →
    ∀ ctx (inputs : Inputs) (slot : Nat) (port : Port) (value : Value),
      filter.ports[slot]? = some port → port.optional = false →
      inputs[slot]? = some value → value.isEmpty = true →
      ∃ mismatch, (filter.compute ctx inputs param).run
        = .done (.error (.typeMismatch filter mismatch))
  /-- If arguments are empty at no ports but those that do not need one, the filter does not fail
      for want of an argument, whatever the exchanges answer. -/
  optional : ∀ ctx (inputs : Inputs) param, inputs.length = filter.ports.length →
    (∀ (slot : Nat) (port : Port) (value : Value), filter.ports[slot]? = some port →
      inputs[slot]? = some value → value.isEmpty = true → port.optional = true) →
    ∀ partner start other port, ((filter.compute ctx inputs param).run.runWith partner start).1
      ≠ .error (.typeMismatch other (.notSupplied port))

/-- What a histogram of a field takes for arguments that are empty, on a rank alone. -/
structure Mesh.HasDefaults (m : Mesh) (field : String) (least greatest : Located) : Prop where
  fieldMin : (m.fieldMin field).run.runAlone = .ok least
  fieldMax : (m.fieldMax field).run.runAlone = .ok greatest
  histogram : ∀ history cycleVar (inputs : Inputs) param,
    inputs.length = Filter.histogram.ports.length → inputs.fieldAt? 0 = some field →
    (Filter.histogram.compute ⟨some m, history, cycleVar⟩ inputs param).run.runAlone
      = (Filter.histogram.compute ⟨some m, history, cycleVar⟩
        (inputs.filled (Filter.histogramDefaults least.value greatest.value)) param).run.runAlone

/-- **Filters obey the marks of their ports.** An argument is needed where the catalog says so and
    nowhere else. What a histogram takes for the others is what it could have been given. -/
theorem Filter.obeysPorts :
    (∀ filter : Filter, filter.KeepsToPorts)
    ∧ ∀ (m : Mesh) (field : String), m.isScalarField field = true →
      (∃ x ∈ Block.samplesOf field m.blocks, x.isNaN = false) →
      ∃ least greatest, m.HasDefaults field least greatest := by
  constructor
  · intro filter
    constructor
    · intro params param hcheck ctx inputs slot port value hport hneeded hvalue hempty
      exact mismatched_compute hcheck hport hneeded (Inputs.optional?_of_isEmpty hvalue hempty)
    · intro ctx inputs param hlength honly partner start
      -- An argument that is reported as missing is at a port that needs it, and no such argument is
      -- empty.
      refine compute_ne_notSupplied (fun slot port hport hneeded hnone => ?_) partner start
      have hslot := hlength ▸ (List.getElem?_eq_some_iff.mp hport).1
      have hempty := Inputs.isEmpty_of_optional? (List.getElem?_eq_getElem hslot) hnone
      have hoptional := honly slot port _ hport (List.getElem?_eq_getElem hslot) hempty
      exact absurd (hneeded.symm.trans hoptional) (by simp)
  · intro m field hscalar hsample
    obtain ⟨decl, hdecl, hone⟩ := Mesh.isScalarField_iff.mp hscalar
    obtain ⟨least, hleast⟩ := Mesh.exists_runAlone_extremum .min hdecl hone hsample
    obtain ⟨greatest, hgreatest⟩ := Mesh.exists_runAlone_extremum .max hdecl hone hsample
    exact ⟨least, greatest, hleast, hgreatest, fun _ _ _ param hlength hname =>
      Mesh.runAlone_histogram_filled hscalar hleast hgreatest hlength hname param⟩

/-- A sum without its second operand, and a histogram that is given nothing but a number of bins. -/
theorem Filter.obeysPorts_of_pair :
    (∃ mismatch, (Filter.binaryOp.compute {} [.int 1, .empty] (.op .add)).run
      = .done (.error (.typeMismatch .binaryOp mismatch)))
    ∧ (∀ partner start other port, ((Filter.histogram.compute {} Mesh.twoBins .nothing).run.runWith
      partner start).1 ≠ .error (.typeMismatch other (.notSupplied port)))
    ∧ ∃ least greatest, (Mesh.pair 1 2).HasDefaults "e" least greatest
      ∧ (Filter.histogram.compute ⟨some (Mesh.pair 1 2), {}, ""⟩ Mesh.twoBins .nothing).run.runAlone
        = (Filter.histogram.compute ⟨some (Mesh.pair 1 2), {}, ""⟩ [.fieldRef "e", .int 2,
          .float least.value, .float greatest.value] .nothing).run.runAlone := by
  have hadd : Filter.binaryOp.paramSpec.check (Named.insert ∅ "op_string" (.string "+"))
      = .ok (.op .add) := by rfl
  refine ⟨(obeysPorts.1 .binaryOp).needed _ _ hadd {} _ 1 ⟨"rhs", false⟩ .empty rfl rfl rfl rfl,
    (obeysPorts.1 .histogram).optional {} Mesh.twoBins .nothing rfl ?_, ?_⟩
  · intro slot port value hport hvalue hempty
    have hslot := (List.getElem?_eq_some_iff.mp hport).1
    obtain rfl | rfl | rfl | rfl : slot = 0 ∨ slot = 1 ∨ slot = 2 ∨ slot = 3 := by
      simp only [ports, List.length_cons, List.length_nil] at hslot
      omega
    · exact absurd (Option.some.inj hvalue ▸ hempty) (by decide)
    all_goals exact Option.some.inj hport ▸ rfl
  · obtain ⟨least, greatest, h⟩ := obeysPorts.2 (Mesh.pair 1 2) "e" (by rfl)
      ⟨1, show (1 : Float) ∈ [1, 2] from List.mem_cons_self, by decide +kernel⟩
    exact ⟨least, greatest, h, h.histogram {} "" Mesh.twoBins .nothing rfl rfl⟩

end MeshExpr
