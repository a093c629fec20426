import Mathlib.Data.List.Forall2
import Mathlib.Data.List.Nodup

namespace MeshExpr

/-!
# Lists of checks

When does a chain of checks, or the same check of every element of a list, come to an end without an
error, and what has it found then?

* `bind_eq_ok_iff` — two checks, one after the other.
* `mapM_eq_ok_iff`, `forM_eq_ok_iff` and `mapM_eq_some_iff` — one check of each element, or one
  search in it.
* `exists_mapM_eq_ok_iff` — whether there is anything to be found at all.
* `exists_of_mapM_eq_error` — an element that does not pass.
* `exists_of_foldlM_eq_error` — the first step of a chain of steps that fails.
* `forall_split_concat_iff` — a condition on each element and those before it.
* `findIdx?_eq_some_iff_of_nodup` — looking for the one element of a key.
-/

variable {α β ε : Type}

/-- Two checks succeed if the first does, and the second does with what the first has found. -/
theorem bind_eq_ok_iff {x : Except ε α} {f : α → Except ε β} {b : β} :
    x >>= f = .ok b ↔ ∃ a, x = .ok a ∧ f a = .ok b := by
  cases x with
  | error e => simp [bind, Except.bind]
  | ok a => simp [bind, Except.bind]

/-- All elements of a list pass a check if each of them does, and the findings stand in the order of
    the elements. -/
theorem mapM_eq_ok_iff {f : α → Except ε β} {l : List α} {found : List β} :
    l.mapM f = .ok found ↔ List.Forall₂ (fun a b => f a = .ok b) l found := by
  induction l generalizing found with
  | nil =>
    rw [List.mapM_nil, List.forall₂_nil_left_iff]
    exact ⟨fun h => (Except.ok.inj h).symm, fun h => h ▸ rfl⟩
  | cons a rest ih =>
    rw [List.mapM_cons, bind_eq_ok_iff]
    simp only [bind_eq_ok_iff, ih, List.forall₂_cons_left_iff]
    constructor
    · rintro ⟨b, hb, bs, hbs, heq⟩
      exact ⟨b, bs, hb, hbs, (Except.ok.inj heq).symm⟩
    · rintro ⟨b, bs, hb, hbs, rfl⟩
      exact ⟨b, hb, bs, hbs, rfl⟩

/-- The same for a search in each element. -/
theorem mapM_eq_some_iff {f : α → Option β} {l : List α} {found : List β} :
    l.mapM f = some found ↔ List.Forall₂ (fun a b => f a = some b) l found := by
  induction l generalizing found with
  | nil =>
    rw [List.mapM_nil, List.forall₂_nil_left_iff]
    exact ⟨fun h => (Option.some.inj h).symm, fun h => h ▸ rfl⟩
  | cons a rest ih =>
    rw [List.mapM_cons, List.forall₂_cons_left_iff]
    simp only [Option.bind_eq_bind, Option.bind_eq_some_iff, Option.pure_def, Option.some.injEq, ih]
    constructor
    · rintro ⟨b, hb, bs, hbs, rfl⟩
      exact ⟨b, bs, hb, hbs, rfl⟩
    · rintro ⟨b, bs, hb, hbs, rfl⟩
      exact ⟨b, hb, bs, hbs, rfl⟩

/-- The same for a check that finds nothing. -/
theorem forM_eq_ok_iff {f : α → Except ε Unit} {l : List α} :
    l.forM f = .ok () ↔ ∀ a ∈ l, f a = .ok () := by
  induction l with
  | nil => simp [List.forM, pure, Except.pure]
  | cons a rest ih =>
    show f a >>= (fun _ => rest.forM f) = .ok () ↔ _
    rw [bind_eq_ok_iff, List.forall_mem_cons, ← ih]
    exact ⟨fun ⟨_, ha, hrest⟩ => ⟨ha, hrest⟩, fun ⟨ha, hrest⟩ => ⟨(), ha, hrest⟩⟩

/-- Two lists are related if they are of one length, and related place by place. -/
theorem forall₂_iff_getElem? {R : α → β → Prop} {l : List α} {l' : List β} :
    List.Forall₂ R l l' ↔ l.length = l'.length ∧
      ∀ (i : Nat) a b, l[i]? = some a → l'[i]? = some b → R a b := by
  rw [List.forall₂_iff_get]
  refine and_congr_right fun hlen => ⟨fun h i a b ha hb => ?_, fun h i hi hi' => ?_⟩
  · obtain ⟨hi, rfl⟩ := List.getElem?_eq_some_iff.mp ha
    obtain ⟨hi', rfl⟩ := List.getElem?_eq_some_iff.mp hb
    exact h i hi hi'
  · exact h i _ _ (List.getElem?_eq_getElem hi) (List.getElem?_eq_getElem hi')

/-- If there is a partner for each element, then there is a list of partners. -/
theorem exists_forall₂ {R : α → β → Prop} {l : List α} (h : ∀ a ∈ l, ∃ b, R a b) :
    ∃ l', List.Forall₂ R l l' := by
  induction l with
  | nil => exact ⟨[], .nil⟩
  | cons a rest ih =>
    obtain ⟨b, hb⟩ := h a List.mem_cons_self
    obtain ⟨bs, hbs⟩ := ih fun a ha => h a (List.mem_cons_of_mem _ ha)
    exact ⟨b :: bs, .cons hb hbs⟩

/-- Every element of the first list has a partner in the second one. -/
theorem exists_of_forall₂ {R : α → β → Prop} {l : List α} {l' : List β} (h : List.Forall₂ R l l')
    {a : α} (ha : a ∈ l) : ∃ b ∈ l', R a b := by
  induction h with
  | nil => exact absurd ha List.not_mem_nil
  | cons hab _ ih =>
    rcases List.mem_cons.mp ha with rfl | ha
    · exact ⟨_, List.mem_cons_self, hab⟩
    · obtain ⟨b, hb, hR⟩ := ih ha
      exact ⟨b, List.mem_cons_of_mem _ hb, hR⟩

/-- The same check of all elements succeeds if it does for each of them. -/
theorem exists_mapM_eq_ok_iff {f : α → Except ε β} {l : List α} :
    (∃ found, l.mapM f = .ok found) ↔ ∀ a ∈ l, ∃ b, f a = .ok b := by
  simp only [mapM_eq_ok_iff]
  constructor
  · rintro ⟨found, h⟩ a ha
    obtain ⟨b, -, hb⟩ := exists_of_forall₂ h ha
    exact ⟨b, hb⟩
  · exact exists_forall₂

/-- If a check of all elements fails, then it does for one of them. -/
theorem exists_of_mapM_eq_error {f : α → Except ε β} {l : List α} {e : ε}
    (h : l.mapM f = .error e) : ∃ a ∈ l, f a = .error e := by
  induction l with
  | nil => exact absurd h (by simp [pure, Except.pure])
  | cons a rest ih =>
    rw [List.mapM_cons] at h
    cases hfirst : f a with
    | error e' =>
      rw [hfirst] at h
      have hsame : (.error e' : Except ε (List β)) = .error e := h
      exact ⟨a, List.mem_cons_self, hfirst.trans (congrArg _ (Except.error.inj hsame))⟩
    | ok b =>
      cases hrest : rest.mapM f with
      | error e' =>
        simp only [hfirst, hrest, bind, Except.bind] at h
        obtain ⟨a', ha', hfails⟩ := ih (hrest.trans h)
        exact ⟨a', List.mem_cons_of_mem _ ha', hfails⟩
      | ok found => simp [hfirst, hrest, bind, Except.bind, pure, Except.pure] at h

/-- If a chain of steps fails, then one of them does, and those before it have succeeded. -/
theorem exists_of_foldlM_eq_error {f : β → α → Except ε β} {l : List α} {b : β} {e : ε}
    (h : l.foldlM f b = .error e) :
    ∃ before a after b', l = before ++ a :: after ∧ before.foldlM f b = .ok b'
      ∧ f b' a = .error e := by
  induction l generalizing b with
  | nil => exact absurd h (by simp [pure, Except.pure])
  | cons a rest ih =>
    rw [List.foldlM_cons] at h
    -- Either the first step fails, or the chain goes on from what it has come to.
    cases hstep : f b a with
    | error e' =>
      rw [hstep] at h
      exact ⟨[], a, rest, b, rfl, rfl, hstep.trans h⟩
    | ok b' =>
      rw [hstep] at h
      obtain ⟨before, a', after, b'', rfl, hbefore, hfails⟩ := ih h
      refine ⟨a :: before, a', after, b'', rfl, ?_, hfails⟩
      rw [List.foldlM_cons, hstep]
      exact hbefore

/-- All elements of a longer list go with those before them if all elements of the list do, and the
    new one goes with the list. -/
theorem forall_split_concat_iff {holds : List α → α → Prop} {l : List α} {a : α} :
    (∀ before b after, l ++ [a] = before ++ b :: after → holds before b) ↔
      (∀ before b after, l = before ++ b :: after → holds before b) ∧ holds l a := by
  constructor
  · intro h
    refine ⟨fun before b after heq => h before b (after ++ [a]) (by simp [heq]), h l a [] rfl⟩
  · rintro ⟨h, hlast⟩ before b after heq
    rcases List.eq_nil_or_concat after with rfl | ⟨after, x, rfl⟩
    · obtain ⟨rfl, hsame⟩ := List.append_inj' heq rfl
      obtain rfl : a = b := by simpa using hsame
      exact hlast
    · have heq' : l ++ [a] = (before ++ b :: after) ++ [x] := by simpa using heq
      obtain ⟨rfl, -⟩ := List.append_inj' heq' rfl
      exact h before b after rfl

/-- Of distinct keys at most one is the wanted one, so the first place that has it is its place. -/
theorem findIdx?_eq_some_iff_of_nodup {key : α → String} {l : List α} (h : (l.map key).Nodup)
    {wanted : String} {i : Nat} :
    l.findIdx? (key · == wanted) = some i ↔ (l.map key)[i]? = some wanted := by
  rw [List.findIdx?_eq_some_iff_getElem, List.getElem?_eq_some_iff]
  constructor
  · rintro ⟨hi, hkey, -⟩
    exact ⟨by simpa using hi, by simpa using hkey⟩
  · rintro ⟨hi, hkey⟩
    rw [List.length_map] at hi
    -- An earlier place with the same key would be the same place.
    refine ⟨hi, by simpa using hkey, fun j hj heq => ?_⟩
    have hj' : j < (l.map key).length := by rw [List.length_map]; omega
    have hsame : (l.map key)[j] = (l.map key)[i] := by
      rw [hkey]
      simpa using heq
    exact absurd ((List.Nodup.getElem_inj_iff h).mp hsame) (by omega)

end MeshExpr
