import MeshExpr.Engine.Basic

namespace MeshExpr

/-!
# Histories that grow

A history only ever grows at the ends of its logs.

* `History.Gains` — what a history has gained, name by name; this determines the later history.
* `History.gains_append` — the history gains one value; `History.gains_foldl_append` — the results
  of a cycle, one after the other.
* `History.Gains.lookUp_eq` and its like — what is read from a history whose logs are known.
-/

namespace History

/-- The second history has the logs of the first one, and more values at their ends. A name that has
    no log and gains nothing still has none. -/
def Gains (h h' : History) (values : String → List Value) : Prop :=
  ∀ name, h'.log? name =
    if values name = [] then h.log? name else some (h.entries name ++ values name)

variable {h h' h'' : History} {values more : String → List Value}

/-- Two histories with the same logs are the same. -/
theorem ext_log? (hlog : ∀ name, h.log? name = h'.log? name) : h = h' := by
  obtain ⟨logs⟩ := h
  obtain ⟨logs'⟩ := h'
  exact congrArg History.mk (Named.ext_get? hlog)

/-- The log of the name gets the value at its end, and may begin with it. -/
theorem log?_append (h : History) (name other : String) (value : Value) :
    (h.append name value).log? other =
      if name = other then some (h.entries name ++ [value]) else h.log? other :=
  Named.get?_insert h.logs name other (h.entries name ++ [value])

namespace Gains

/-- A history that has gained nothing. -/
theorem refl (h : History) : h.Gains h fun _ => [] := fun _ => rfl

/-- What a log has gained stands at its end. -/
theorem entries_eq (hgains : h.Gains h' values) (name : String) :
    h'.entries name = h.entries name ++ values name := by
  unfold entries
  rw [hgains name]
  by_cases hnil : values name = []
  · simp [hnil]
  · simp [hnil, entries]

/-- What is gained in two steps is gained together. -/
theorem trans (hgains : h.Gains h' values) (hmore : h'.Gains h'' more) :
    h.Gains h'' fun name => values name ++ more name := by
  intro name
  rw [hmore name, hgains.entries_eq name, hgains name]
  by_cases hnil : more name = []
  · simp [hnil]
  · simp [hnil]

/-- What is gained determines the history. -/
theorem unique (hgains : h.Gains h' values) (hgains' : h.Gains h'' values) : h' = h'' :=
  ext_log? fun name => (hgains name).trans (hgains' name).symm

end Gains

/-! ### One value, and the results of a cycle -/

/-- **One value** is gained by the log of its name. -/
theorem gains_append (h : History) (name : String) (value : Value) :
    h.Gains (h.append name value) fun other => if name = other then [value] else [] := by
  intro other
  rw [log?_append]
  by_cases heq : name = other
  · subst heq
    simp
  · simp [heq]

/-- The values that stand under a name in a list of results. -/
def valuesOf (results : List (String × Value)) (name : String) : List Value :=
  (results.filter (·.1 == name)).map (·.2)

@[simp] theorem valuesOf_nil (name : String) : valuesOf [] name = [] := rfl

@[simp] theorem valuesOf_cons (result : String × Value) (results : List (String × Value))
    (name : String) :
    valuesOf (result :: results) name =
      (if result.1 = name then [result.2] else []) ++ valuesOf results name := by
  by_cases heq : result.1 = name
  · simp [valuesOf, heq]
  · simp [valuesOf, heq]

/-- **The results of a cycle** are gained one after the other, each by the log of its name. -/
theorem gains_foldl_append (h : History) (results : List (String × Value)) :
    h.Gains (results.foldl (fun history (name, value) => history.append name value) h)
      (valuesOf results) := by
  induction results generalizing h with
  | nil => exact .refl h
  | cons result rest ih =>
    have hgains := (h.gains_append result.1 result.2).trans (ih (h.append result.1 result.2))
    intro name
    rw [valuesOf_cons]
    exact hgains name

end History

/-! ### Reading -/

/-- An identifier finds the last value of a log. -/
theorem Context.lookUp_eq_ok_iff {ctx : Context} {name : String} {value : Value} :
    ctx.lookUp name = .ok value ↔ ctx.history.latest? name = some value := by
  unfold lookUp History.latest? History.entries
  cases ctx.history.log? name with
  | none => simp
  | some log => cases hlast : log.getLast? <;> simp [hlast]

namespace History


/-! What is read from a history whose logs are known. -/

section Known

variable (hgains : empty.Gains h values)
include hgains

/-- A name has a log if it has gained anything. -/
theorem Gains.log?_eq (name : String) :
    h.log? name = if values name = [] then none else some (values name) :=
  hgains name

/-- The log is what was gained. -/
theorem Gains.entries_eq_of_empty (name : String) : h.entries name = values name :=
  hgains.entries_eq name

/-- The last value is the one that was gained last. -/
theorem Gains.latest?_eq (name : String) : h.latest? name = (values name).getLast? := by
  unfold latest?
  rw [hgains.entries_eq_of_empty]

/-- There are as many values as were gained. -/
theorem Gains.count_eq (name : String) : h.count name = (values name).length := by
  unfold count
  rw [hgains.log?_eq]
  by_cases hnil : values name = []
  · simp [hnil]
  · simp [hnil]

/-- What an identifier finds: the last value, or that there is no log. A log without a value is
    never found. -/
theorem Gains.lookUp_eq {ctx : Context} (hctx : ctx.history = h) (name : String) :
    ctx.lookUp name = match (values name).getLast? with
      | some value => .ok value
      | none => .error (.unknownIdentifier name) := by
  unfold Context.lookUp
  rw [hctx, hgains.log?_eq]
  by_cases hnil : values name = []
  · simp [hnil]
  · rw [if_neg hnil]
    cases hlast : (values name).getLast? with
    | none => exact absurd (List.getLast?_eq_none_iff.mp hlast) hnil
    | some value => simp [hlast]

end Known

end History

end MeshExpr
