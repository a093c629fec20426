import MeshExpr.History
import MeshExpr.Proofs.Value.Document

namespace MeshExpr

open Json (Tree Fault Reads AllReadBack Legible writtenTree)

/-!
# Histories survive their documents

A history that is written and read again is the same history, to the last bit of every float, if all
its floats are finite; otherwise its document is refused, and no other history comes out of it. The
scanner reads floats digit by digit and not to the nearest one, so it is taken of every finite float
in the history that its digits are read back.

* `History.reads_tree` — the tree of a history is read as that history.
* `History.ofText_text_eq` — **so is its text.**
-/

namespace History

/-- The floats in a history. -/
def floats (h : History) : List Float :=
  h.logs.entries.flatMap fun e => e.2.flatMap Value.floats

/-- The counts in a history. -/
def counts (h : History) : List Nat :=
  h.logs.entries.flatMap fun e => e.2.flatMap fun v => v.payload.counts

/-- The floats of a history stand in the values of its logs. -/
theorem mem_floats {h : History} {x : Float} :
    x ∈ h.floats ↔ ∃ e ∈ h.logs.entries, ∃ v ∈ e.2, x ∈ v.floats := by
  unfold floats
  simp only [List.mem_flatMap]

/-- The counts of a history stand there too. -/
theorem mem_counts {h : History} {n : Nat} :
    n ∈ h.counts ↔ ∃ e ∈ h.logs.entries, ∃ v ∈ e.2, n ∈ v.payload.counts := by
  unfold counts
  simp only [List.mem_flatMap]

/-- The tree of the logs of a history. -/
def logsTree (logs : Named (List Value)) : Tree :=
  .object (logs.entries.map fun e =>
    (some e.1, .list (e.2.map fun v => writtenTree v.toJson) .closed)) .closed

/-- The document of a history has one field. -/
theorem writtenTree_toJson (h : History) :
    writtenTree h.toJson = .object [(some "entries", logsTree h.logs)] .closed := by
  have hlist : ∀ log : List Value, writtenTree (.list (log.map Value.toJson))
      = .list (log.map fun v => writtenTree v.toJson) .closed := by
    intro log
    rw [Json.writtenTree_list, List.map_map]
    rfl
  -- Each log is written as a list of values, under its name.
  have hlogs : writtenTree (.object (h.logs.entries.map fun e =>
      (e.1, .list (e.2.map Value.toJson)))) = logsTree h.logs := by
    rw [Json.writtenTree_object, List.map_map]
    unfold logsTree
    refine congrArg (Tree.object · .closed) (List.map_congr_left fun e _ => ?_)
    exact congrArg (some e.1, ·) (hlist e.2)
  unfold toJson
  rw [Json.writtenTree_object, ← hlogs]
  rfl

/-- The logs are read back if all floats are finite, and refused otherwise. -/
theorem reads_logsTree {h : History} (hcounts : ∀ n ∈ h.counts, n < 2 ^ 64) (room : Nat) :
    Reads (∀ e ∈ h.logs.entries, ∀ v ∈ e.2, AllFinite v.floats)
      (readLogs (room + 5) (logsTree h.logs)) h.logs := by
  refine @Json.reads_walkFields _ (Tree.readItems (Value.ofTree (room + 3)))
    (fun log => .list (log.map fun v => writtenTree v.toJson) .closed)
    (fun log => ∀ v ∈ log, AllFinite v.floats) h.logs fun e he => ?_
  exact Json.reads_readItems fun v hv =>
    Value.reads_tree (fun n hn => hcounts n (mem_counts.mpr ⟨e, he, v, hv, hn⟩)) room

/-- **A history is read from its tree if all floats in it are finite**, and is refused otherwise. -/
theorem reads_tree {h : History} (hcounts : ∀ n ∈ h.counts, n < 2 ^ 64) (room : Nat) :
    Reads (AllFinite h.floats) (ofTree (room + 6) (writtenTree h.toJson)) h := by
  have hfinite : (∀ e ∈ h.logs.entries, ∀ v ∈ e.2, AllFinite v.floats) ↔ AllFinite h.floats :=
    ⟨fun hall x hx =>
      let ⟨e, he, v, hv, hmem⟩ := mem_floats.mp hx
      hall e he v hv x hmem,
      fun hall e he v hv x hx => hall x (mem_floats.mpr ⟨e, he, v, hv, hx⟩)⟩
  -- There is one field, and it must be the one with the logs.
  have hofTree : ofTree (room + 6) (writtenTree h.toJson)
      = History.mk <$> readLogs (room + 5) (logsTree h.logs) := by
    rw [writtenTree_toJson]
    unfold ofTree
    dsimp only
    rw [Json.walkFields_singleton]
    show some <$> readLogs (room + 5) (logsTree h.logs) >>= _ = _
    cases readLogs (room + 5) (logsTree h.logs) <;> rfl
  rw [hofTree]
  exact ((reads_logsTree hcounts room).map History.mk).congr hfinite

/-- All numbers in the document of a history can be read back. -/
theorem legible_toJson {h : History} (hcounts : ∀ n ∈ h.counts, n < 2 ^ 64)
    (hfloats : AllReadBack h.floats) : Legible h.toJson.numbers := by
  refine Json.legible_object (List.forall_mem_singleton.mpr
    (Json.legible_object fun field hfield => ?_))
  obtain ⟨e, he, rfl⟩ := List.mem_map.mp hfield
  refine Json.legible_list fun item hitem => ?_
  obtain ⟨v, hv, rfl⟩ := List.mem_map.mp hitem
  exact Value.legible_toJson (fun n hn => hcounts n (mem_counts.mpr ⟨e, he, v, hv, hn⟩))
    fun x hx => hfloats x (mem_floats.mpr ⟨e, he, v, hv, hx⟩)

/-- **A history is read from its text** if all floats in it are finite, and the text is refused
    otherwise. -/
theorem ofText_text_eq (h : History) (hcounts : ∀ n ∈ h.counts, n < 2 ^ 64)
    (hfloats : AllReadBack h.floats) :
    ofText h.text = if AllFinite h.floats then .ok h else .error .unfit := by
  have hreads : Reads (AllFinite h.floats) (ofText h.text) h := by
    unfold ofText text
    rw [Json.read_ofText_render (legible_toJson hcounts hfloats)]
    exact reads_tree hcounts 121
  split
  · rename_i hfinite
    exact hreads.kept hfinite
  · rename_i hfinite
    exact hreads.refused hfinite

/-- Values of all kinds, floats that could be taken for integers, and names with quotes. -/
def mixed : History := ⟨.ofList [
  ("", []),
  ("say \"mean\"\n\\", [⟨.scalar (.int 5), ∅⟩, ⟨.scalar (.float 5.0), ∅⟩,
    ⟨.scalar (.float (-0.0)), ∅⟩,
    ⟨.scalar (.float 3000000000.0), .ofList [("position", .vector ⟨1.0, -0.5, 1e300⟩),
      ("rank", .number (.int (-2147483648))), ("weight", .number (.float 7.0))]⟩]),
  ("übrig", [⟨.empty, ∅⟩, ⟨.vector ⟨0.0, 0.1, -2.0⟩, ∅⟩, ⟨.boolean true, ∅⟩,
    ⟨.fieldRef "braid", .ofList [("", .number (.float 5e-324))]⟩,
    ⟨.histogram ⟨[0, 18446744073709551615], -1.0, 1.0, 2⟩, ∅⟩])]⟩

/-- A maximum whose position is not known. -/
def unplaced : History := ⟨.ofList [
  ("max", [⟨.scalar (.float 4.0), .ofList [("position", .vector ⟨1.0, 0.0 / 0.0, 0.0⟩)]⟩])]⟩

/-- A history with values of several kinds is read back, and one with a position that is no number
    is refused. -/
theorem ofText_text_eq_mixed :
    (∀ n ∈ mixed.counts, n < 2 ^ 64) ∧ AllReadBack mixed.floats ∧ AllFinite mixed.floats
      ∧ ofText mixed.text = .ok mixed
    ∧ (∀ n ∈ unplaced.counts, n < 2 ^ 64) ∧ AllReadBack unplaced.floats
      ∧ ¬ AllFinite unplaced.floats ∧ ofText unplaced.text = .error .unfit := by
  have hcounts : ∀ n ∈ mixed.counts, n < 2 ^ 64 := by decide +kernel
  have hfloats : AllReadBack mixed.floats := by decide +kernel
  have hfinite : AllFinite mixed.floats := by decide +kernel
  have hcounts' : ∀ n ∈ unplaced.counts, n < 2 ^ 64 := by decide +kernel
  have hfloats' : AllReadBack unplaced.floats := by decide +kernel
  have hfinite' : ¬ AllFinite unplaced.floats := by decide +kernel
  refine ⟨hcounts, hfloats, hfinite, ?_, hcounts', hfloats', hfinite', ?_⟩
  · rw [ofText_text_eq mixed hcounts hfloats, if_pos hfinite]
  · rw [ofText_text_eq unplaced hcounts' hfloats', if_neg hfinite']

end History

end MeshExpr
