import MeshExpr.Proofs.Mesh.Bins
import MeshExpr.Proofs.Mesh.Reduction
import MeshExpr.Proofs.Number.Sum

namespace MeshExpr

open FloatWhole FloatValue FloatSum FloatForm FloatOrder

/-!
# Averages over all ranks

Each rank adds its samples from left to right, and the sums are added in the order of the ranks. The
number of samples travels as a float and is exact as long as it stays below `2 ^ 53`; it alone
decides whether there is an average. How the samples are spread over the ranks changes which sums
are rounded: where none is, it changes nothing.

* `ExactAdd` and `ExactFrom` — additions that lose nothing, one and a row of them.
* `Mesh.sum_of_exact` — the value of a sum when nothing is lost.
* `Mesh.isNaN_sum` — a sample that is no number is never lost.
* `Mesh.countAll_eq` — counting in floats is exact, as long as there is not too much to count.
* `Mesh.sum_map_toFloat` — numbers of samples add up exactly.
* `Distribution.average_of_ranks` — **what the average on all ranks is**.
-/

/-- An addition of finite floats that loses nothing. -/
def ExactAdd (x y : Float) : Prop :=
  x.isFinite = true ∧ y.isFinite = true ∧ (x + y).isFinite = true
    ∧ value (x + y) = value x + value y

instance (x y : Float) : Decidable (ExactAdd x y) := inferInstanceAs (Decidable (_ ∧ _ ∧ _ ∧ _))

/-- Adding the floats of a list one after the other to `acc` loses nothing. -/
def ExactFrom (acc : Float) : List Float → Prop
  | [] => True
  | x :: rest => ExactAdd acc x ∧ ExactFrom (acc + x) rest

instance ExactFrom.decidable : (acc : Float) → (xs : List Float) → Decidable (ExactFrom acc xs)
  | _, [] => .isTrue trivial
  | acc, x :: rest =>
    have := ExactFrom.decidable (acc + x) rest
    inferInstanceAs (Decidable (ExactAdd acc x ∧ ExactFrom (acc + x) rest))

namespace Mesh

variable {x : Float} {xs : List Float}

/-! ### Sums -/

/-- The last float is added last. -/
theorem sum_concat (xs : List Float) (x : Float) : sum (xs ++ [x]) = sum xs + x := by
  unfold sum
  rw [List.foldl_append, List.foldl_cons, List.foldl_nil]

/-- A row of additions that lose nothing ends at the sum of the values, and not at the zero with a
    sign. -/
theorem foldl_of_exact {acc : Float} (hfinite : acc.isFinite = true) (hne : acc ≠ -0)
    (h : ExactFrom acc xs) : (xs.foldl (· + ·) acc).isFinite = true ∧ xs.foldl (· + ·) acc ≠ -0
      ∧ value (xs.foldl (· + ·) acc) = value acc + (xs.map value).sum := by
  induction xs generalizing acc with
  | nil => exact ⟨hfinite, hne, (add_zero _).symm⟩
  | cons x rest ih =>
    obtain ⟨⟨-, hx, hsum, hvalue⟩, hrest⟩ := h
    obtain ⟨hlast, hne', hvalue'⟩ := ih hsum (add_ne_neg_zero hfinite hx hne) hrest
    refine ⟨hlast, hne', hvalue'.trans ?_⟩
    rw [hvalue, List.map_cons, List.sum_cons, add_assoc]

/-- **The value of a sum when nothing is lost.** -/
theorem sum_of_exact (h : ExactFrom 0 xs) :
    (sum xs).isFinite = true ∧ sum xs ≠ -0 ∧ value (sum xs) = (xs.map value).sum := by
  obtain ⟨hfinite, hne, hvalue⟩ := foldl_of_exact (by rfl) (by decide +kernel) h
  rw [value_zero, zero_add] at hvalue
  exact ⟨hfinite, hne, hvalue⟩

/-- **A sample that is no number is never lost in a sum.** -/
theorem isNaN_sum (h : ∃ x ∈ xs, x.isNaN = true) : (sum xs).isNaN = true := by
  induction xs using List.reverseRecOn with
  | nil =>
    obtain ⟨x, hx, -⟩ := h
    exact absurd hx List.not_mem_nil
  | append_singleton rest x ih =>
    obtain ⟨y, hy, hnan⟩ := h
    rw [sum_concat]
    rcases List.mem_append.mp hy with hmem | hmem
    · exact isNaN_add (.inl (ih ⟨y, hmem, hnan⟩))
    · obtain rfl := List.mem_singleton.mp hmem
      exact isNaN_add (.inr hnan)

/-- Below `2 ^ 53`, adding one to a float for each sample counts the samples. -/
theorem isWhole_countAll (h : xs.length < 2 ^ 53) : IsWhole (countAll xs) xs.length := by
  induction xs using List.reverseRecOn with
  | nil => exact isWhole_zero
  | append_singleton rest x ih =>
    rw [List.length_append, List.length_singleton] at h ⊢
    have hconcat : countAll (rest ++ [x]) = countAll rest + 1 := by
      unfold countAll
      rw [List.foldl_append, List.foldl_cons, List.foldl_nil]
    rw [hconcat]
    exact (ih (by omega)).add isWhole_one h

/-- **Counting in floats is exact** below `2 ^ 53`. -/
theorem countAll_eq (h : xs.length < 2 ^ 53) : countAll xs = xs.length.toFloat :=
  eq_of_unpack ((isWhole_countAll h).trans (isWhole_ofNat h).symm)

/-- Numbers of samples that are added as floats. -/
theorem isWhole_sum {ns : List ℕ} (h : ns.sum < 2 ^ 53) :
    IsWhole (sum (ns.map Nat.toFloat)) ns.sum := by
  induction ns using List.reverseRecOn with
  | nil => exact isWhole_zero
  | append_singleton rest n ih =>
    rw [List.sum_append, List.sum_singleton] at h ⊢
    rw [List.map_append, List.map_singleton, sum_concat]
    exact (ih (by omega)).add (isWhole_ofNat (by omega)) h

/-- **Numbers of samples add up exactly.** -/
theorem sum_map_toFloat {ns : List ℕ} (h : ns.sum < 2 ^ 53) :
    sum (ns.map Nat.toFloat) = ns.sum.toFloat :=
  eq_of_unpack ((isWhole_sum h).trans (isWhole_ofNat h).symm)

/-- Whether there are samples can be seen from their number as a float. -/
theorem toFloat_pos_iff {n : ℕ} (hn : n < 2 ^ 53) : n.toFloat > 0 ↔ 0 < n := by
  have hwhole := isWhole_ofNat hn
  have hfinite := isFinite_of_isWhole hwhole
  have hzero := isFinite_of_isWhole isWhole_zero
  have hlt : n.toFloat > 0 ↔ rank 0 < rank n.toFloat :=
    lt_iff.trans (and_iff_right (isNaN_of_isFinite hzero) |>.trans
      (and_iff_right (isNaN_of_isFinite hfinite)))
  rw [hlt, rank_lt_iff hzero hfinite, value_zero, value_of_isWhole hwhole hn, Nat.cast_pos]

end Mesh

namespace Distribution

variable {d : Distribution} {field : String} {decl : FieldDecl}

/-- What each rank adds up on its own, in the order of the ranks. -/
def localSums (d : Distribution) (field : String) : List Float :=
  d.domains.map fun blocks => Mesh.sum (Block.samplesOf field blocks)

/-- No addition that is made for the average loses anything, neither on a rank nor between ranks. -/
def ExactlySummed (d : Distribution) (field : String) : Prop :=
  (∀ blocks ∈ d.domains, ExactFrom 0 (Block.samplesOf field blocks))
    ∧ ExactFrom 0 (d.localSums field)

instance (d : Distribution) (field : String) : Decidable (d.ExactlySummed field) :=
  inferInstanceAs (Decidable (_ ∧ _))

/-- All ranks of the group come to the result. -/
def AverageIs (d : Distribution) (field : String) (result : Except MeshError Float) : Prop :=
  Collective.runRanks (d.ranks.map fun m => (m.fieldAvg field).run)
    = some (List.replicate d.domains.length result)

/-- The average of a field of a group. -/
structure AverageIsExact (d : Distribution) (field : String) (result : Except MeshError Float) :
    Prop where
  ranks : d.AverageIs field result
  /-- It is missing exactly if there are no samples, and there is no other error. -/
  error_iff : ∀ e, result = .error e ↔ e = .emptyField field ∧ d.samples field = []
  /-- Otherwise it is the sum of the sums of the ranks, over the number of all samples. -/
  quotient : d.samples field ≠ [] → ∃ count : Float, count.isFinite = true
    ∧ value count = (d.samples field).length ∧ result = .ok (Mesh.sum (d.localSums field) / count)
  /-- No sample that is no number is hidden. -/
  nan : (∃ x ∈ d.samples field, x.isNaN = true) → ∃ y, result = .ok y ∧ y.isNaN = true
  /-- Where nothing is lost, it does not matter on which ranks and in which blocks the samples
      are. -/
  regrouped : ∀ d' : Distribution,
    (∃ decl, d'.schema.get? field = some decl ∧ decl.components = 1) →
    (d'.samples field).Perm (d.samples field) → d.ExactlySummed field → d'.ExactlySummed field →
    d'.AverageIs field result

/-- All samples of a group are those of its ranks, one rank after the other. -/
theorem samples_eq_flatten (d : Distribution) (field : String) :
    d.samples field = (d.domains.map (Block.samplesOf field)).flatten :=
  Block.samplesOf_flatten field d.domains

/-- The average, or why there is none. -/
def averageOf (d : Distribution) (field : String) : Except MeshError Float :=
  if d.samples field = [] then .error (.emptyField field)
  else .ok (Mesh.sum (d.localSums field) / (d.samples field).length.toFloat)

/-- What all ranks send adds up to the sum of their sums and the number of all samples. -/
theorem averageIs_averageOf (hdecl : d.schema.get? field = some decl)
    (hscalar : decl.components = 1) (hfew : (d.samples field).length < 2 ^ 53) :
    d.AverageIs field (d.averageOf field) := by
  have hprograms := fun m (hm : m ∈ d.ranks) =>
    Mesh.fieldAvg_eq (schema_of_mem hm ▸ hdecl : m.schema.get? field = some decl) hscalar
  have hcount : (d.domains.map fun blocks => (Block.samplesOf field blocks).length).sum
      = (d.samples field).length := by
    rw [samples_eq_flatten, List.length_flatten, List.map_map]
    rfl
  -- No rank has more samples than all of them together, so each rank counts its own exactly.
  have hcounts : (d.domains.map fun blocks => Mesh.countAll (Block.samplesOf field blocks))
      = (d.domains.map fun blocks => (Block.samplesOf field blocks).length).map Nat.toFloat := by
    rw [List.map_map]
    refine List.map_congr_left fun blocks hblocks => Mesh.countAll_eq (lt_of_le_of_lt ?_ hfew)
    rw [← hcount]
    exact List.le_sum_of_mem (List.mem_map_of_mem hblocks)
  have htotal : Mesh.total (d.ranks.map fun m =>
        [Mesh.sum (m.values field decl), Mesh.countAll (m.values field decl)])
      = (Mesh.sum (d.localSums field), (d.samples field).length.toFloat) := by
    unfold Mesh.total
    rw [← hcount, ← Mesh.sum_map_toFloat (hcount ▸ hfew), ← hcounts]
    unfold ranks localSums
    simp only [List.map_map, Function.comp_def, Mesh.values, Mesh.flatMap_samples, List.headD_cons,
      List.getLastD_cons, List.getLastD_nil]
  unfold AverageIs averageOf
  rw [Reduction.runRanks_eq hprograms fun m _ => (rfl : _ = 2), htotal, length_ranks]
  by_cases hempty : d.samples field = []
  · rw [if_pos hempty, if_neg]
    rw [hempty]
    exact fun h => absurd ((Mesh.toFloat_pos_iff (by decide)).mp h) (by decide)
  · rw [if_neg hempty, if_pos ((Mesh.toFloat_pos_iff hfew).mpr (List.length_pos_of_ne_nil hempty))]

/-- A sample that is no number makes the sum of the rank no number, and so the sum of all. -/
theorem isNaN_localSums (h : ∃ x ∈ d.samples field, x.isNaN = true) :
    (Mesh.sum (d.localSums field)).isNaN = true := by
  obtain ⟨x, hx, hnan⟩ := h
  rw [samples_eq_flatten, List.mem_flatten] at hx
  obtain ⟨part, hpart, hx⟩ := hx
  obtain ⟨blocks, hblocks, rfl⟩ := List.mem_map.mp hpart
  apply Mesh.isNaN_sum
  exact ⟨_, List.mem_map_of_mem hblocks, Mesh.isNaN_sum ⟨x, hx, hnan⟩⟩

/-- The sum of the sums of the ranks, when nothing is lost. -/
theorem sum_localSums (h : d.ExactlySummed field) :
    (Mesh.sum (d.localSums field)).isFinite = true ∧ Mesh.sum (d.localSums field) ≠ -0
      ∧ value (Mesh.sum (d.localSums field)) = ((d.samples field).map value).sum := by
  obtain ⟨hfinite, hne, hvalue⟩ := Mesh.sum_of_exact h.2
  refine ⟨hfinite, hne, hvalue.trans ?_⟩
  have hparts : ∀ blocks ∈ d.domains, value (Mesh.sum (Block.samplesOf field blocks))
      = ((Block.samplesOf field blocks).map value).sum :=
    fun blocks hblocks => (Mesh.sum_of_exact (h.1 blocks hblocks)).2.2
  rw [samples_eq_flatten, List.map_flatten, List.sum_flatten, List.map_map, List.map_map]
  unfold localSums
  rw [List.map_map]
  exact congrArg List.sum (List.map_congr_left hparts)

/-- Two groups with the same samples have one average, if neither of them loses anything. -/
theorem averageOf_eq_of_perm {d' : Distribution} (hperm : (d'.samples field).Perm (d.samples field))
    (h : d.ExactlySummed field) (h' : d'.ExactlySummed field) :
    d'.averageOf field = d.averageOf field := by
  obtain ⟨hfinite, hne, hvalue⟩ := sum_localSums h
  obtain ⟨hfinite', hne', hvalue'⟩ := sum_localSums h'
  have hsum : Mesh.sum (d'.localSums field) = Mesh.sum (d.localSums field) := by
    apply eq_of_value hfinite' hfinite hne' hne
    rw [hvalue, hvalue', (hperm.map value).sum_eq]
  have hempty : d'.samples field = [] ↔ d.samples field = [] := by
    rw [← List.length_eq_zero_iff, hperm.length_eq, List.length_eq_zero_iff]
  unfold averageOf
  simp only [hempty, hsum, hperm.length_eq]

/-- **Averages over all ranks count every sample.** -/
theorem average_of_ranks (hdecl : d.schema.get? field = some decl) (hscalar : decl.components = 1)
    (hfew : (d.samples field).length < 2 ^ 53) : ∃ result, d.AverageIsExact field result := by
  have hcount := isWhole_ofNat hfew
  refine ⟨d.averageOf field, averageIs_averageOf hdecl hscalar hfew, fun e => ?_, fun hne => ?_,
    fun hnan => ?_, fun d' hd' hperm hexact hexact' => ?_⟩
  · unfold averageOf
    split
    · rename_i hempty
      exact ⟨fun h => ⟨(Except.error.inj h).symm, hempty⟩, fun h => h.1 ▸ rfl⟩
    · rename_i hne
      exact ⟨fun h => absurd h (by simp), fun h => absurd h.2 hne⟩
  · exact ⟨_, isFinite_of_isWhole hcount, value_of_isWhole hcount hfew, if_neg hne⟩
  · -- A sample that is no number is a sample.
    have hne : d.samples field ≠ [] := by
      rintro hempty
      rw [hempty] at hnan
      obtain ⟨x, hx, -⟩ := hnan
      exact absurd hx List.not_mem_nil
    exact ⟨_, if_neg hne, isNaN_div (isNaN_localSums hnan) _⟩
  · obtain ⟨decl', hdecl', hscalar'⟩ := hd'
    rw [← averageOf_eq_of_perm hperm hexact hexact']
    exact averageIs_averageOf hdecl' hscalar' (hperm.length_eq ▸ hfew)

/-- Samples of the field `e`, spread over ranks with one block each. -/
def spread (parts : List (List Float)) : Distribution :=
  ⟨(∅ : Named FieldDecl).insert "e" ⟨.vertex, 1⟩, ∅, parts.map fun samples =>
    [{ vertices := List.replicate samples.length .zero, fields := Named.insert ∅ "e" samples }]⟩

/-- The field of these samples has one component. -/
theorem isScalar_spread (parts : List (List Float)) :
    (spread parts).schema.get? "e" = some ⟨.vertex, 1⟩ := by rfl

/-- Three samples on two ranks, and the same samples on three. -/
theorem average_of_spread : ∃ result, (spread [[0.5], [1, 2.5]]).AverageIsExact "e" result
    ∧ (spread [[2.5], [], [0.5, 1]]).AverageIs "e" result := by
  have hfew : ((spread [[0.5], [1, 2.5]]).samples "e").length < 2 ^ 53 := by decide +kernel
  obtain ⟨result, haverage⟩ := average_of_ranks (isScalar_spread _) rfl hfew
  have hperm : ((spread [[2.5], [], [0.5, 1]]).samples "e").Perm
      ((spread [[0.5], [1, 2.5]]).samples "e") := by decide +kernel
  refine ⟨result, haverage, haverage.regrouped _ ⟨_, isScalar_spread _, rfl⟩ hperm ?_ ?_⟩
  · decide +kernel
  · decide +kernel

end Distribution

end MeshExpr
