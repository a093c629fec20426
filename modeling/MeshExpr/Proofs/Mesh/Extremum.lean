import Mathlib.Data.List.Induction
import MeshExpr.Proofs.Mesh.Reduction
import MeshExpr.Proofs.Mesh.Samples
import MeshExpr.Proofs.Number.Order

namespace MeshExpr

/-!
# Extrema over all ranks

The search for an extremum is a fold in three layers: over the samples of a rank, block after block,
then over what the ranks have sent. It finds what one search through all samples of all ranks would
find, and this is the first of the samples that no other one is better than.

* `Extreme.best_eq_some` — what a search through a list of numbers finds.
* `Extreme.foldl_better_flatten` — a search through the best of several lists is a search through
  the lists.
* `Located.decode_encode` — what is sent is what is received.
* `Mesh.FirstExtreme` and `Mesh.Answers` — what an extremum of a group is.
* `Mesh.extrema_of_ranks` — every rank of a group answers it, however the blocks are split over
  the ranks.
-/

/-! ### Better and worse values -/

namespace Extreme

variable {which : Extreme} {x y z : Float}

/-- Being better is transitive, also where no numbers are compared. -/
theorem improves_trans (h : which.improves x y = true) (h' : which.improves y z = true) :
    which.improves x z = true := by
  cases which <;> simp only [improves, decide_eq_true_eq] at *
  · exact FloatOrder.lt_trans h h'
  · exact FloatOrder.lt_trans h' h

/-- Between numbers, not being better is transitive too. -/
theorem not_improves_trans (hy : y.isNaN = false) (h : which.improves x y = false)
    (h' : which.improves y z = false) : which.improves x z = false := by
  cases which <;> simp only [improves, decide_eq_false_iff_not] at *
  · exact FloatOrder.not_lt_trans hy h h'
  · exact FloatOrder.not_lt_trans hy h' h

/-- Nothing is better than itself. -/
theorem not_improves_self (which : Extreme) (x : Float) : which.improves x x = false := by
  cases which <;> exact decide_eq_false (FloatOrder.not_lt_self x)

/-! ### The best of a list -/

/-- Whether all candidates of a list are numbers. -/
def Numbers (l : List Located) : Prop := ∀ c ∈ l, c.value.isNaN = false

/-- The last candidate is compared with the best of those before. -/
theorem best_concat (which : Extreme) (l : List Located) (c : Located) :
    which.best (l ++ [c]) = which.better (which.best l) c := by
  simp [best]

/-- A search that finds nothing has been through nothing. -/
theorem best_eq_none {l : List Located} (h : which.best l = none) : l = [] := by
  induction l using List.reverseRecOn with
  | nil => rfl
  | append_singleton l c _ =>
    rw [best_concat] at h
    unfold better at h
    cases hbest : which.best l with
    | none => simp [hbest] at h
    | some current =>
      simp only [hbest] at h
      split at h <;> exact absurd h (by simp)

/-- A search through numbers finds one that is better than all before it, and that none after it is
    better than. -/
theorem best_eq_some {l : List Located} (hl : Numbers l) {c : Located}
    (h : which.best l = some c) :
    ∃ before after, l = before ++ c :: after
      ∧ (∀ d ∈ before, which.improves c.value d.value = true)
      ∧ ∀ d ∈ after, which.improves d.value c.value = false := by
  -- The search goes from left to right, so that the last one is compared with the best before it.
  induction l using List.reverseRecOn generalizing c with
  | nil => exact absurd h (by simp [best])
  | append_singleton l next ih =>
    have hnumbers : Numbers l := fun d hd => hl d (List.mem_append_left _ hd)
    rw [best_concat] at h
    cases hbest : which.best l with
    | none =>
      obtain rfl := best_eq_none hbest
      obtain rfl : next = c := by simpa [hbest, better] using h
      exact ⟨[], [], rfl, by simp, by simp⟩
    | some current =>
      obtain ⟨before, after, rfl, hbefore, hafter⟩ := ih hnumbers hbest
      simp only [hbest, better] at h
      split at h
      · -- The next one is better than the best so far, so it is better than all before it.
        rename_i hnext
        obtain rfl := Option.some.inj h
        refine ⟨before ++ current :: after, [], rfl, fun d hd => ?_, by simp⟩
        rcases List.mem_append.mp hd with hd | hd
        · exact improves_trans hnext (hbefore d hd)
        · rcases List.mem_cons.mp hd with rfl | hd
          · exact hnext
          · -- Otherwise the best so far would be as good as the next one.
            have hnumber : d.value.isNaN = false := hnumbers d (by simp [hd])
            by_contra hworse
            rw [Bool.not_eq_true] at hworse
            have hcontra := not_improves_trans hnumber hworse (hafter d hd)
            exact absurd (hnext.symm.trans hcontra) (by simp)
      · rename_i hnext
        obtain rfl := Option.some.inj h
        refine ⟨before, after ++ [next], by simp, hbefore, fun d hd => ?_⟩
        rcases List.mem_append.mp hd with hd | hd
        · exact hafter d hd
        · obtain rfl := List.mem_singleton.mp hd
          exact Bool.not_eq_true _ ▸ hnext

/-! ### The best of several lists -/

/-- Of three candidates in a row it does not matter which two are compared first. -/
theorem better_better (which : Extreme) (first : Option Located) {c : Located}
    (hc : c.value.isNaN = false) (next : Located) :
    which.better (which.better first c) next
      = ((which.better (some c) next).elim first fun d => which.better first d) := by
  cases first with
  | none =>
    simp only [better]
    split <;> rfl
  | some a =>
    -- To be better is transitive, and so is not to be better.
    by_cases hca : which.improves c.value a.value = true
    · by_cases hnc : which.improves next.value c.value = true
      · simp [better, hca, hnc, improves_trans hnc hca]
      · simp [better, hca, hnc]
    · by_cases hnc : which.improves next.value c.value = true
      · simp [better, hca, hnc]
      · rw [Bool.not_eq_true] at hca hnc
        simp [better, hca, hnc, not_improves_trans hc hnc hca]

/-- Going on with the search through a list is comparing with the best of the list. -/
theorem foldl_better {l : List Located} (hl : Numbers l) (first : Option Located) :
    l.foldl which.better first = (which.best l).elim first fun c => which.better first c := by
  induction l using List.reverseRecOn with
  | nil => rfl
  | append_singleton l next ih =>
    have hnumbers : Numbers l := fun d hd => hl d (List.mem_append_left _ hd)
    rw [List.foldl_append, List.foldl_cons, List.foldl_nil, ih hnumbers, best_concat]
    cases hbest : which.best l with
    | none => rfl
    | some c =>
      have hc : c.value.isNaN = false := by
        obtain ⟨before, after, rfl, -, -⟩ := best_eq_some hnumbers hbest
        exact hnumbers c (by simp)
      exact better_better which first hc next

/-- A search through the best of each list is a search through the lists. -/
theorem foldl_better_flatten {ls : List (List Located)} (h : ∀ l ∈ ls, Numbers l)
    (first : Option Located) :
    (ls.filterMap which.best).foldl which.better first = ls.flatten.foldl which.better first := by
  induction ls generalizing first with
  | nil => rfl
  | cons l rest ih =>
    have hrest : ∀ l ∈ rest, Numbers l := fun l hl => h l (List.mem_cons_of_mem _ hl)
    rw [List.flatten_cons, List.foldl_append, foldl_better (h l List.mem_cons_self), ← ih hrest,
      List.filterMap_cons]
    cases which.best l <;> rfl

/-- The best of what is best in each list is the best of all. -/
theorem best_filterMap_best {ls : List (List Located)} (h : ∀ l ∈ ls, Numbers l) :
    which.best (ls.filterMap which.best) = which.best ls.flatten :=
  foldl_better_flatten h none

end Extreme

/-- What a rank sends is what the others receive. -/
theorem Located.decode_encode (c : Option Located) : decode (encode c) = c := by
  cases c <;> rfl

/-! ### Extrema of a group -/

namespace Mesh

variable {which : Extreme} {field : String} {decl : FieldDecl} {meshes : List Mesh}

/-- Only numbers are candidates. -/
theorem numbers_candidates (m : Mesh) (field : String) (decl : FieldDecl) :
    Extreme.Numbers (m.candidates field decl) := by
  intro c hc
  unfold candidates at hc
  simpa using (List.mem_filter.mp hc).2

/-- The extremum of a group, or why there is none. -/
def extremumOf (which : Extreme) (field : String) (candidates : List Located) :
    Except MeshError Located :=
  match which.best candidates with
  | some c => .ok c
  | none => .error (.emptyField field)

/-- A rank sends its best candidate, and the best of what all ranks have sent is the extremum. -/
theorem extremum_eq {m : Mesh} (which : Extreme) (hdecl : m.schema.get? field = some decl)
    (hscalar : decl.components = 1) : m.extremum which field
      = Reduction.exchange (Located.encode (which.best (m.candidates field decl))) >>= fun parts =>
        Reduction.ofExcept (extremumOf which field (parts.filterMap Located.decode)) := by
  unfold extremum
  rw [scalarDecl_eq_ok hdecl hscalar]
  show (Reduction.exchange _ >>= fun parts => _) = _
  congr 1
  funext parts
  unfold extremumOf
  cases which.best (parts.filterMap Located.decode) <;> rfl

/-- On every rank of a group the search finds what one search through the candidates of all ranks
    finds. -/
theorem runRanks_extremum (which : Extreme) (hscalar : decl.components = 1)
    (hdecl : ∀ m ∈ meshes, m.schema.get? field = some decl) :
    Collective.runRanks (meshes.map fun m => (m.extremum which field).run)
      = some (List.replicate meshes.length
          (extremumOf which field (meshes.flatMap (·.candidates field decl)))) := by
  have hprograms := fun m hm => extremum_eq which (hdecl m hm) hscalar
  rw [Reduction.runRanks_eq hprograms fun m _ => Located.length_encode _]
  -- The parts are the best candidates of the ranks.
  have hparts :
      (meshes.map fun m => Located.encode (which.best (m.candidates field decl))).filterMap
      Located.decode = (meshes.map (·.candidates field decl)).filterMap which.best := by
    rw [List.filterMap_map, List.filterMap_map]
    exact List.filterMap_congr fun m _ => Located.decode_encode _
  have hnumbers : ∀ l ∈ meshes.map (·.candidates field decl), Extreme.Numbers l := by
    intro l hl
    obtain ⟨m, -, rfl⟩ := List.mem_map.mp hl
    exact numbers_candidates m field decl
  unfold extremumOf
  rw [hparts, Extreme.best_filterMap_best hnumbers, List.flatMap_def]

/-! ### What an extremum is -/

/-- The candidate `c` at the spot `s` is the first one that no other one beats, among the samples
    that are numbers. -/
structure FirstExtreme (beats : Float → Float → Prop) (sampleAt? : Spot → Option Located)
    (s : Spot) (c : Located) : Prop where
  sample : sampleAt? s = some c
  number : c.value.isNaN = false
  unbeaten : ∀ t d, sampleAt? t = some d → d.value.isNaN = false → ¬beats d.value c.value
  /-- All numbers before it are beaten by some number. -/
  first : ∀ t d, sampleAt? t = some d → d.value.isNaN = false → t.Before s →
    ∃ u e, sampleAt? u = some e ∧ e.value.isNaN = false ∧ beats e.value d.value

/-- There is only one first extreme. -/
theorem FirstExtreme.unique {beats : Float → Float → Prop} {sampleAt? : Spot → Option Located}
    {s t : Spot} {c d : Located} (h : FirstExtreme beats sampleAt? s c)
    (h' : FirstExtreme beats sampleAt? t d) : c = d := by
  rcases Spot.before_trichotomy s t with hlt | rfl | hlt
  · obtain ⟨u, e, he, hnumber, hbeats⟩ := h'.first s c h.sample h.number hlt
    exact absurd hbeats (h.unbeaten u e he hnumber)
  · exact Option.some.inj (h.sample.symm.trans h'.sample)
  · obtain ⟨u, e, he, hnumber, hbeats⟩ := h.first t d h'.sample h'.number hlt
    exact absurd hbeats (h'.unbeaten u e he hnumber)

/-- The answer to the search for an extreme of a field of a group. -/
structure Answers (beats : Float → Float → Prop) (meshes : List Mesh) (field : String)
    (decl : FieldDecl) (answer : Except MeshError Located) : Prop where
  /-- It is the first extreme, with its value and its position. -/
  ok_iff : ∀ c, answer = .ok c ↔ ∃ s, FirstExtreme beats (sampleAt? meshes field decl) s c
  /-- It is missing exactly if no rank has a number, and there is no other error. -/
  error_iff : ∀ e, answer = .error e ↔ e = .emptyField field
    ∧ ∀ s c, sampleAt? meshes field decl s = some c → c.value.isNaN = true

/-- A search through all samples that are numbers finds the first extreme. -/
theorem exists_firstExtreme {c : Located}
    (h : which.best (meshes.flatMap (·.candidates field decl)) = some c) :
    ∃ s, FirstExtreme (fun x y => which.improves x y = true) (sampleAt? meshes field decl) s c := by
  rw [flatMap_candidates] at h
  have hnumbers : Extreme.Numbers ((spottedNumbers meshes field decl).map Prod.snd) := by
    intro d hd
    obtain ⟨⟨t, d⟩, ht, rfl⟩ := List.mem_map.mp hd
    exact (mem_spottedNumbers_iff.mp ht).2
  obtain ⟨before, after, heq, hbefore, hafter⟩ := Extreme.best_eq_some hnumbers h
  obtain ⟨earlier, rest, hspots, rfl, hrest⟩ := List.map_eq_append_iff.mp heq
  obtain ⟨⟨s, c'⟩, later, rfl, rfl, rfl⟩ := List.map_eq_cons_iff.mp hrest
  -- A sample that is a number stands before the one that was found, is that one, or stands
  -- after it.
  have hcases : ∀ {t d}, sampleAt? meshes field decl t = some d → d.value.isNaN = false →
      (t, d) ∈ earlier ∨ t = s ∧ d = c' ∨ (t, d) ∈ later := by
    intro t d ht hd
    have hmem := mem_spottedNumbers_iff.mpr ⟨ht, hd⟩
    rw [hspots] at hmem
    simpa using hmem
  have hpairwise := pairwise_spottedNumbers meshes field decl
  rw [hspots] at hpairwise
  obtain ⟨hfound, hnumber⟩ := mem_spottedNumbers_iff.mp
    (show (s, c') ∈ spottedNumbers meshes field decl by rw [hspots]; simp)
  refine ⟨s, hfound, hnumber, fun t d ht hd hbeats => ?_, fun t d ht hd hlt => ?_⟩
  · rcases hcases ht hd with hmem | ⟨rfl, rfl⟩ | hmem
    · have hcontra := Extreme.improves_trans hbeats (hbefore d (List.mem_map_of_mem hmem))
      rw [Extreme.not_improves_self] at hcontra
      exact absurd hcontra (by simp)
    · rw [Extreme.not_improves_self] at hbeats
      exact absurd hbeats (by simp)
    · rw [hafter d (List.mem_map_of_mem hmem)] at hbeats
      exact absurd hbeats (by simp)
  · rcases hcases ht hd with hmem | ⟨rfl, rfl⟩ | hmem
    · exact ⟨s, c', hfound, hnumber, hbefore d (List.mem_map_of_mem hmem)⟩
    · exact absurd hlt hlt.asymm
    · have hlater := (List.pairwise_cons.mp (List.pairwise_append.mp hpairwise).2.1).1 _ hmem
      exact absurd hlt hlater.asymm

/-- What is found among the candidates of all ranks is the answer to the search. -/
theorem answers_extremumOf (which : Extreme) (meshes : List Mesh) (field : String)
    (decl : FieldDecl) :
    Answers (fun x y => which.improves x y = true) meshes field decl
      (extremumOf which field (meshes.flatMap (·.candidates field decl))) := by
  unfold extremumOf
  cases hbest : which.best (meshes.flatMap (·.candidates field decl)) with
  | none =>
    -- No rank has a candidate.
    have hnone := Extreme.best_eq_none hbest
    have hnan : ∀ s c, sampleAt? meshes field decl s = some c → c.value.isNaN = true := by
      intro s c hs
      by_contra hnumber
      rw [Bool.not_eq_true] at hnumber
      have hmem := List.mem_map_of_mem (f := Prod.snd) (mem_spottedNumbers_iff.mpr ⟨hs, hnumber⟩)
      rw [← flatMap_candidates, hnone] at hmem
      exact absurd hmem List.not_mem_nil
    constructor
    · intro c
      refine ⟨fun h => absurd h (by simp), fun ⟨s, hs⟩ => ?_⟩
      exact absurd (hnan s c hs.sample) (Bool.eq_false_iff.mp hs.number)
    · intro e
      exact ⟨fun h => ⟨(Except.error.inj h).symm, hnan⟩, fun h => h.1 ▸ rfl⟩
  | some found =>
    obtain ⟨s, hs⟩ := exists_firstExtreme hbest
    constructor
    · intro c
      refine ⟨fun h => ⟨s, Except.ok.inj h ▸ hs⟩, fun ⟨t, ht⟩ => ?_⟩
      exact congrArg _ (hs.unique ht)
    · intro e
      refine ⟨fun h => absurd h (by simp), fun h => ?_⟩
      exact absurd (h.2 s found hs.sample) (Bool.eq_false_iff.mp hs.number)

/-- Every rank of a group comes to the answer to the search, and so does every rank of any other
    group that owns the same blocks in the same order. -/
def SearchIsExact (search : Mesh → String → Reduction Located) (beats : Float → Float → Prop)
    (meshes : List Mesh) (field : String) (decl : FieldDecl) : Prop :=
  ∃ answer, Answers beats meshes field decl answer ∧
    ∀ split : List Mesh, (∀ m ∈ split, m.schema.get? field = some decl) →
      split.flatMap (·.blocks) = meshes.flatMap (·.blocks) →
      Collective.runRanks (split.map fun m => (search m field).run)
        = some (List.replicate split.length answer)

/-- The search for either extreme is exact. -/
theorem searchIsExact_extremum (which : Extreme) (hscalar : decl.components = 1)
    (meshes : List Mesh) :
    SearchIsExact (·.extremum which) (fun x y => which.improves x y = true) meshes field decl := by
  refine ⟨_, answers_extremumOf which meshes field decl, fun split hdecl hblocks => ?_⟩
  rw [runRanks_extremum which hscalar hdecl, flatMap_candidates_eq, flatMap_candidates_eq, hblocks]

/-- **Extrema over all ranks are exact.** Where a group declares a field with one component, every
    rank finds the first sample that is least, or greatest, among the numbers of all ranks, or that
    there are no numbers; and it does not matter how the blocks are split over the ranks. -/
theorem extrema_of_ranks {field : String} {decl : FieldDecl} (hscalar : decl.components = 1)
    (meshes : List Mesh) :
    SearchIsExact fieldMin (fun x y => x < y) meshes field decl
      ∧ SearchIsExact fieldMax (fun x y => x > y) meshes field decl := by
  have hmin : (fun x y => Extreme.min.improves x y = true) = fun x y => x < y := by
    funext x y
    simp [Extreme.improves]
  have hmax : (fun x y => Extreme.max.improves x y = true) = fun x y => x > y := by
    funext x y
    simp [Extreme.improves]
  rw [← hmin, ← hmax]
  exact ⟨searchIsExact_extremum .min hscalar meshes, searchIsExact_extremum .max hscalar meshes⟩

/-- Two ranks that own a block each. On the first of them one vertex has no number, and on both of
    them one has the least value. -/
def twoRanks : List Mesh :=
  let schema := (∅ : Named FieldDecl).insert "e" ⟨.vertex, 1⟩
  let block (positions : List Vec3) (values : List Float) : Block :=
    { vertices := positions, fields := (∅ : Named (List Float)).insert "e" values }
  [⟨schema, [block [⟨1, 0, 0⟩, ⟨2, 0, 0⟩] [0 / 0, 5]], ∅⟩,
    ⟨schema, [{}, block [⟨3, 0, 0⟩, ⟨4, 0, 0⟩] [7, 5]], ∅⟩]

/-- Both ranks find the least value where the lower of them has it, and the greatest value on the
    higher one. -/
theorem extrema_of_twoRanks :
    (FieldDecl.mk .vertex 1).components = 1
      ∧ SearchIsExact fieldMin (fun x y => x < y) twoRanks "e" ⟨.vertex, 1⟩
      ∧ SearchIsExact fieldMax (fun x y => x > y) twoRanks "e" ⟨.vertex, 1⟩
      ∧ Collective.runRanks (twoRanks.map fun m => (m.fieldMin "e").run)
        = some [.ok ⟨5, ⟨2, 0, 0⟩⟩, .ok ⟨5, ⟨2, 0, 0⟩⟩]
      ∧ Collective.runRanks (twoRanks.map fun m => (m.fieldMax "e").run)
        = some [.ok ⟨7, ⟨3, 0, 0⟩⟩, .ok ⟨7, ⟨3, 0, 0⟩⟩] := by
  obtain ⟨hmin, hmax⟩ := extrema_of_ranks (rfl : (FieldDecl.mk .vertex 1).components = 1) twoRanks
  exact ⟨rfl, hmin, hmax, by rfl, by rfl⟩

end Mesh

end MeshExpr
