import MeshExpr.Engine.Config
import MeshExpr.Plan.Planner
import MeshExpr.Proofs.Graph.Document

namespace MeshExpr

open Json (Fault AllReadBack writtenTree)

/-!
# Documents of an engine

An engine gets its settings and its graphs as texts. What it has accepted can be written and handed
over again, and is the same then: unknown fields are gone, fields that were left out stand there
with their usual values, and records that were lists are objects.

* `Config.ofText_text` — settings that were read are read from their own text.
* `accepted_again` — **so are graphs, and nothing changes in how they are planned and written.**
-/

namespace Config

/-- Settings are read from their tree. -/
theorem ofTree_tree (c : Config) : ofTree (writtenTree c.toJson) = .ok c := by
  obtain ⟨policy, recordHistory, cycleVar⟩ := c
  cases policy <;> rfl

/-- No blank name is accepted for the variable that counts the cycles. -/
theorem isBlank_of_ofText {text : String} {c : Config} (h : ofText text = .ok c) :
    Text.isBlank c.cycleVar = false := by
  unfold ofText at h
  split at h
  · cases h
  · split at h
    · cases h
    · rename_i hblank
      obtain rfl := Except.ok.inj h
      exact Bool.eq_false_of_not_eq_true hblank

/-- Settings that were read from some text are read from their own text. -/
theorem ofText_text {text : String} {c : Config} (h : ofText text = .ok c) :
    ofText c.text = .ok c := by
  have hlegible : Json.Legible c.toJson.numbers := Json.legible_nil
  have hread : (Json.Document.ofText c.text).read ofTree = .ok c :=
    (Json.read_ofText_render hlegible ofTree).trans c.ofTree_tree
  unfold ofText
  rw [hread]
  dsimp only
  rw [if_neg (by rw [isBlank_of_ofText h]; decide)]

end Config

/-- **What an engine has accepted, it accepts again** from the text that is written for it: the same
    graph, with the same plan and the same text, if the floats in it are read back; and the same
    settings. -/
theorem accepted_again :
    (∀ (text : String) (g : Graph), Graph.ofText text = .ok g → AllReadBack g.floats →
      Graph.ofText g.text = .ok g
        ∧ ∀ g', Graph.ofText g.text = .ok g' → g'.plan = g.plan ∧ g'.text = g.text)
    ∧ ∀ (text : String) (c : Config), Config.ofText text = .ok c →
      Config.ofText c.text = .ok c := by
  refine ⟨fun text g h hfloats => ?_, fun text c h => c.ofText_text h⟩
  have hagain := Graph.ofText_text h hfloats
  refine ⟨hagain, fun g' hg' => ?_⟩
  obtain rfl := Except.ok.inj (hagain.symm.trans hg')
  exact ⟨rfl, rfl⟩

/-- A graph and a node as lists, a key that stands twice, a field that no node has, and numbers of
    three kinds. -/
def terse : String :=
  "[\"mean\", [\x7b\"filter\": \"expr_real\", \"name\": \"a\", \"unit\": [\"m\"], \"params\": "
    ++ "\x7b\"z\": [-0, 7, 18446744073709551616, \x7b\"b\": null, \"a\": \"\\u00e9\"\x7d], "
    ++ "\"value\": 1, \"value\": 2.5e0\x7d\x7d, [\"b\", \"expr_integer\"]], [], \"b\"]"

/-- That graph, and a configuration that is given as a list, are accepted again. -/
theorem accepted_again_terse :
    (∃ g, Graph.ofText terse = .ok g ∧ g.floats = [2.5, -0.0, 18446744073709551616.0]
      ∧ AllReadBack g.floats ∧ Graph.ofText g.text = .ok g)
    ∧ ∃ c, Config.ofText "[\"forward\"]" = .ok c ∧ Config.ofText c.text = .ok c := by
  constructor
  · have hfloats : (Graph.ofText terse).map Graph.floats
        = .ok [2.5, -0.0, 18446744073709551616.0] := by decide +kernel
    cases hg : Graph.ofText terse with
    | error fault =>
      rw [hg] at hfloats
      cases hfloats
    | ok g =>
      rw [hg] at hfloats
      have hg' : g.floats = [2.5, -0.0, 18446744073709551616.0] := Except.ok.inj hfloats
      -- Three floats are written and read back, one of them with more digits than a word holds.
      have hback : AllReadBack g.floats := by
        rw [hg']
        decide +kernel
      exact ⟨g, rfl, hg', hback, (accepted_again.1 terse g hg hback).1⟩
  · have hc : Config.ofText "[\"forward\"]" = .ok { failurePolicy := .forward } := by
      decide +kernel
    exact ⟨_, hc, accepted_again.2 _ _ hc⟩

end MeshExpr
