import Mathlib.Algebra.Order.BigOperators.Group.Finset
import MeshExpr.Mesh.Bins
import MeshExpr.Proofs.Evaluation.Alike
import MeshExpr.Proofs.Mesh.Distribution
import MeshExpr.Proofs.Number.Form

namespace MeshExpr

open Collective FloatWhole FloatValue FloatForm

/-!
# Histograms over all ranks

A histogram is counted in three layers: each rank counts its samples in floats, what it sends is
turned back into integers, and these are added bin by bin. No sample is lost or counted twice on the
way, as long as the counts of a rank are whole numbers that a float holds.

* `Mesh.exists_binIndex?` — every number has a bin, also if the bounds are infinite or no numbers.
* `IsSaturated` — a float that counts, up to the number at which it stops.
* `Mesh.ofFloat_count` — what a rank has counted in floats is what there is to be counted, up to the
  number at which a float stops counting.
* `Mesh.tally` — the counts of all samples, `Mesh.tallies_tally` what they are.
* `Distribution.agree_fieldHistogram` — all ranks of a group come to the tally of all samples.
-/

/-- The samples of a field in some blocks, block after block. -/
def Block.samplesOf (field : String) (blocks : List Block) : List Float :=
  blocks.flatMap fun b => (b.fields.get? field).getD []

/-- The samples of the blocks of all ranks are those of each rank, put together. -/
theorem Block.samplesOf_flatten (field : String) (domains : List (List Block)) :
    samplesOf field domains.flatten = (domains.map (samplesOf field)).flatten := by
  unfold samplesOf
  rw [← List.flatMap_def, ← List.flatMap_id', List.flatMap_assoc]

/-- Samples with their points are still the same samples. -/
theorem Located.map_value_ofSamples (values : List Float) (positions : List Vec3) :
    (ofSamples values positions).map value = values := by
  refine List.ext_getElem? fun i => ?_
  rw [List.getElem?_map, getElem?_ofSamples, Option.map_map]
  exact Option.map_id_apply

namespace Mesh

variable {bins b : Nat} {minVal maxVal : Float} {field : String} {decl : FieldDecl}

/-- The samples that a reduction looks at. -/
theorem flatMap_samples (m : Mesh) (field : String) (decl : FieldDecl) :
    (m.samples field decl).flatMap (·.1) = Block.samplesOf field m.blocks := by
  unfold samples Block.samplesOf
  induction m.blocks with
  | nil => rfl
  | cons b rest ih =>
    rw [List.flatMap_cons, ← ih, List.filterMap_cons]
    cases b.fields.get? field <;> rfl

/-- The candidates for an extremum are the samples that are numbers. -/
theorem map_value_candidates (m : Mesh) (field : String) (decl : FieldDecl) :
    (m.candidates field decl).map Located.value
      = (Block.samplesOf field m.blocks).filter fun x => !x.isNaN := by
  have hfilter : ∀ l : List Located, (l.filter fun c => !c.value.isNaN).map Located.value
      = (l.map Located.value).filter fun x => !x.isNaN := by
    intro l
    rw [List.filter_map]
    rfl
  unfold candidates
  rw [hfilter, ← flatMap_samples m field decl, List.map_flatMap]
  simp only [Located.map_value_ofSamples]

/-! ### Bins -/

/-- What is no number has no bin. -/
theorem binIndex?_of_isNaN {x : Float} (h : x.isNaN = true) :
    binIndex? bins minVal maxVal x = none := by
  unfold binIndex?
  rw [h, Bool.true_or, if_pos rfl]

/-- Every number has a bin, whatever the bounds are. -/
theorem exists_binIndex? {x : Float} (hbins : 0 < bins) (h : x.isNaN = false) :
    ∃ b < bins, binIndex? bins minVal maxVal x = some b := by
  have hsome : (bins == 0) = false := by simpa using hbins.ne'
  unfold binIndex?
  rw [h, hsome, Bool.false_or, if_neg Bool.false_ne_true]
  dsimp only
  split
  · exact ⟨0, hbins, rfl⟩
  · exact ⟨_, by omega, rfl⟩

/-- A sample has a bin exactly if it is a number. -/
theorem isSome_binIndex? (hbins : 0 < bins) (minVal maxVal x : Float) :
    (binIndex? bins minVal maxVal x).isSome = !x.isNaN := by
  cases h : x.isNaN with
  | true =>
    rw [binIndex?_of_isNaN h]
    rfl
  | false =>
    obtain ⟨b, -, hb⟩ : ∃ b < bins, binIndex? bins minVal maxVal x = some b :=
      exists_binIndex? hbins h
    rw [hb]
    rfl

/-- The bin of a sample is one of the bins. -/
theorem lt_of_binIndex? {x : Float} (hbins : 0 < bins)
    (h : binIndex? bins minVal maxVal x = some b) : b < bins := by
  have hnumber : x.isNaN = false := by
    have hsome := isSome_binIndex? hbins minVal maxVal x
    rw [h] at hsome
    exact (Bool.not_eq_true' _).mp hsome.symm
  obtain ⟨b', hlt, hb'⟩ := exists_binIndex? hbins hnumber
  obtain rfl := Option.some.inj (h.symm.trans hb')
  exact hlt

/-! ### Counting in floats -/

/-- The last index adds one to its bin. -/
theorem count_concat (bins : Nat) (indices : List Nat) (i : Nat) :
    count bins (indices ++ [i]) = (count bins indices).modify i (· + 1) := by
  unfold count
  rw [List.foldl_append, List.foldl_cons, List.foldl_nil, Array.toList_modify]

/-- The greatest number that a float counts to: adding one changes nothing any more. -/
def fullCount : Float := Float.ofNat (2 ^ 53)

/-- The float `x` has counted to `n`, or as far as it can. -/
def IsSaturated (x : Float) (n : ℕ) : Prop := if n < 2 ^ 53 then IsWhole x n else x = fullCount

/-- **One step of counting**, also where a float can count no further. -/
theorem IsSaturated.add_one {n : ℕ} (h : IsSaturated x n) : IsSaturated (x + 1) (n + 1) := by
  unfold IsSaturated at h ⊢
  have hfull : fullCount + 1 = fullCount := by decide +kernel
  have hlast : Float.ofNat (2 ^ 53 - 1) + 1 = fullCount := by decide +kernel
  -- Below the limit a float counts exactly; at the limit, adding one is lost in rounding.
  by_cases hn : n + 1 < 2 ^ 53
  · rw [if_pos (by omega)] at h
    rw [if_pos hn]
    exact h.add isWhole_one hn
  · rw [if_neg hn]
    by_cases hn' : n < 2 ^ 53
    · rw [if_pos hn'] at h
      obtain rfl : n = 2 ^ 53 - 1 := by omega
      rw [eq_of_unpack (h.trans (isWhole_ofNat (by decide)).symm), hlast]
    · rw [if_neg hn'] at h
      rw [h, hfull]

/-- What a float has counted to is read back as a number, up to the greatest one. -/
theorem IsSaturated.ofFloat {n : ℕ} (h : IsSaturated x n) : ofFloat x = min n (2 ^ 53) := by
  have hfull : Mesh.ofFloat fullCount = 2 ^ 53 := by decide +kernel
  unfold IsSaturated at h
  split at h
  · rename_i hn
    rw [Nat.min_eq_left hn.le]
    exact h.toNat_toUInt64 hn
  · rename_i hn
    rw [h, hfull, Nat.min_eq_right (not_lt.mp hn)]

/-- Each float has counted the index of its bin. -/
theorem isSaturated_count {b : Nat} (indices : List Nat) (hb : b < bins) :
    ∃ x, (count bins indices)[b]? = some x ∧ IsSaturated x (indices.count b) := by
  induction indices using List.reverseRecOn with
  | nil => exact ⟨0, by simp [count, hb], isWhole_zero⟩
  | append_singleton indices i ih =>
    obtain ⟨x, hx, hcount⟩ := ih
    -- One more index adds one to the float of its own bin, and nothing to the others.
    rw [count_concat, List.getElem?_modify, hx, List.count_append, List.count_singleton]
    by_cases hi : i = b
    · exact ⟨x + 1, by simp [hi], by simpa [hi] using hcount.add_one⟩
    · exact ⟨x, by simp [hi], by simpa [hi] using hcount⟩

/-- **The counts of a rank**, however many samples it has. -/
theorem ofFloat_count (bins : Nat) (indices : List Nat) : (count bins indices).map ofFloat
    = (List.range bins).map fun b => min (indices.count b) (2 ^ 53) := by
  refine List.ext_getElem? fun b => ?_
  rw [List.getElem?_map, List.getElem?_map]
  by_cases hb : b < bins
  · obtain ⟨x, hx, hcount⟩ := isSaturated_count indices hb
    rw [hx, List.getElem?_range hb]
    exact congrArg some hcount.ofFloat
  · rw [List.getElem?_eq_none (by rw [length_count]; omega),
      List.getElem?_eq_none (by rw [List.length_range]; omega)]
    rfl

/-- Few samples lose nothing on the way to the other ranks. -/
theorem map_ofFloat_count {indices : List Nat} (hfew : indices.length < 2 ^ 53) :
    (count bins indices).map ofFloat = (List.range bins).map (indices.count ·) := by
  have hmin : ∀ b, min (indices.count b) (2 ^ 53) = indices.count b := by
    intro b
    have hcount := List.count_le_length (a := b) (l := indices)
    omega
  rw [ofFloat_count]
  simp only [hmin]

/-! ### Adding counts -/

/-- The last part is added last. -/
theorem addCounts_concat (bins : Nat) (parts : List (List Nat)) (part : List Nat) :
    addCounts bins (parts ++ [part]) = List.zipWith (· + ·) (addCounts bins parts) part := by
  unfold addCounts
  rw [List.foldl_append, List.foldl_cons, List.foldl_nil]

/-- The counts of several lists add up to the counts of the lists put together. -/
theorem addCounts_map_count (bins : Nat) (lists : List (List Nat)) :
    addCounts bins (lists.map fun indices => (List.range bins).map (indices.count ·))
      = (List.range bins).map (lists.flatten.count ·) := by
  induction lists using List.reverseRecOn with
  | nil => simp [addCounts]
  | append_singleton lists indices ih =>
    rw [List.map_append, List.map_singleton, addCounts_concat, ih, List.zipWith_map,
      List.zipWith_self, List.flatten_concat]
    simp only [List.count_append]

/-- Indices of bins are all counted in some bin. -/
theorem sum_map_count {indices : List Nat} (h : ∀ i ∈ indices, i < bins) :
    ((List.range bins).map (indices.count ·)).sum = indices.length := by
  have hsum := Multiset.sum_count_eq_card (s := Finset.range bins) (m := (indices : Multiset ℕ))
    fun i hi => Finset.mem_range.mpr (h i hi)
  simp only [Multiset.coe_count, Multiset.coe_card] at hsum
  exact hsum

/-- A rank sends its counts, and the counts of all ranks are added. -/
theorem fieldHistogram_eq {m : Mesh} (hdecl : m.schema.get? field = some decl)
    (hscalar : decl.components = 1) (minVal maxVal : Float) (bins : Nat) :
    m.fieldHistogram field minVal maxVal bins
      = Reduction.exchange (count bins (m.binIndices field decl bins minVal maxVal)) >>=
        fun parts => Reduction.ofExcept (.ok (addCounts bins (parts.map (·.map ofFloat)))) := by
  unfold fieldHistogram
  rw [scalarDecl_eq_ok hdecl hscalar]
  rfl

/-! ### The tally of all samples -/

/-- How many of the samples are in each bin. -/
def tally (bins : Nat) (minVal maxVal : Float) (samples : List Float) : List Nat :=
  (List.range bins).map fun b => samples.countP fun x => binIndex? bins minVal maxVal x == some b

/-- A tally is a count of the bins of the samples. -/
theorem tally_eq (bins : Nat) (minVal maxVal : Float) (samples : List Float) :
    tally bins minVal maxVal samples = (List.range bins).map
      ((samples.filterMap (binIndex? bins minVal maxVal)).count ·) := by
  unfold tally
  simp only [List.count_filterMap]

/-- It does not matter in which order the samples come. -/
theorem tally_eq_of_perm {samples samples' : List Float} (h : samples.Perm samples') :
    tally bins minVal maxVal samples = tally bins minVal maxVal samples' := by
  unfold tally
  simp only [h.countP_eq]

/-- The counts of a histogram: one for each bin, and each number counted once, in its bin. -/
structure Tallies (bins : Nat) (minVal maxVal : Float) (samples : List Float)
    (counts : List Nat) : Prop where
  length : counts.length = bins
  entry : ∀ b < bins, counts[b]? = some (samples.countP fun x =>
    !x.isNaN && binIndex? bins minVal maxVal x == some b)
  sum : counts.sum = samples.countP fun x => !x.isNaN

/-- The tally of some samples is what the counts of their histogram should be. -/
theorem tallies_tally (hbins : 0 < bins) (minVal maxVal : Float) (samples : List Float) :
    Tallies bins minVal maxVal samples (tally bins minVal maxVal samples) where
  length := by rw [tally, List.length_map, List.length_range]
  entry b hb := by
    rw [tally, List.getElem?_map, List.getElem?_range hb]
    refine congrArg some (List.countP_congr fun x _ => ?_)
    -- A sample that is no number is in no bin.
    cases h : x.isNaN with
    | true => rw [binIndex?_of_isNaN h]; simp
    | false => simp
  sum := by
    rw [tally_eq, sum_map_count, List.length_filterMap_eq_countP]
    · simp only [isSome_binIndex? hbins]
    · intro i hi
      obtain ⟨x, -, hx⟩ := List.mem_filterMap.mp hi
      exact lt_of_binIndex? hbins hx

end Mesh

namespace Distribution

variable {d : Distribution} {field : String} {decl : FieldDecl}

/-- The samples of a field on all ranks, rank after rank and block after block. -/
def samples (d : Distribution) (field : String) : List Float :=
  Block.samplesOf field d.domains.flatten

/-- All ranks of a group come to the tally of all samples. -/
theorem agree_fieldHistogram (hdecl : d.schema.get? field = some decl)
    (hscalar : decl.components = 1)
    (hfew : ∀ blocks ∈ d.domains, (Block.samplesOf field blocks).length < 2 ^ 53)
    (minVal maxVal : Float) (bins : Nat) :
    Agree d.ranks (· = .ok (Mesh.tally bins minVal maxVal (d.samples field))) fun m =>
      (m.fieldHistogram field minVal maxVal bins).run := by
  have hprograms : ∀ m ∈ d.ranks, _ := fun m hm =>
    Mesh.fieldHistogram_eq (schema_of_mem hm ▸ hdecl) hscalar minVal maxVal bins
  refine ⟨_, Reduction.runRanks_eq hprograms fun m _ => Mesh.length_count _ _, ?_⟩
  -- What a rank has counted in floats is what there is to be counted in its blocks.
  have hcounts : ∀ blocks ∈ d.domains,
      (Mesh.count bins ((⟨d.schema, blocks, d.state⟩ : Mesh).binIndices field decl bins minVal
        maxVal)).map Mesh.ofFloat = (List.range bins).map
          (((Block.samplesOf field blocks).filterMap
            (Mesh.binIndex? bins minVal maxVal)).count ·) := by
    intro blocks hblocks
    have hlength := List.length_filterMap_le (Mesh.binIndex? bins minVal maxVal)
      (Block.samplesOf field blocks)
    rw [Mesh.binIndices, Mesh.flatMap_samples, Mesh.map_ofFloat_count]
    exact hlength.trans_lt (hfew blocks hblocks)
  have hparts : (d.ranks.map fun m =>
        Mesh.count bins (m.binIndices field decl bins minVal maxVal)).map (·.map Mesh.ofFloat)
      = (d.domains.map fun blocks =>
          (Block.samplesOf field blocks).filterMap (Mesh.binIndex? bins minVal maxVal)).map
            fun indices => (List.range bins).map (indices.count ·) := by
    unfold ranks
    simp only [List.map_map]
    exact List.map_congr_left hcounts
  rw [hparts, Mesh.addCounts_map_count, Mesh.tally_eq, samples, Block.samplesOf_flatten,
    List.filterMap_flatten, List.map_map]
  rfl

end Distribution

end MeshExpr
