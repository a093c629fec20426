import MeshExpr.Proofs.Mesh.Extremum

namespace MeshExpr

/-!
# Blocks and declarations

A block is checked against the declarations when it is added. There are two ways in which its fields
can still fail to match them. The check multiplies machine words, so that it asks for too few
samples if a declaration has so many components that the product wraps around. And a field that a
block has samples of may be declared anew: nothing looks at the blocks again then. As long as
neither happens, every sample has its point, and an extremum sits at a point of the mesh; otherwise
the origin may stand in for a point.

* `Mesh.Step` and `Mesh.build` — the operations that build a mesh, in any order.
* `Mesh.Conforming` — every field of every block is declared, and has as many samples as the
  declaration says; `Mesh.Fitting` — no operation spoils this.
* `Mesh.suits_iff_of_expected` — when a block that passes the check has as many samples as that.
* `Mesh.conforming_take_iff` — one operation, `Mesh.conforming_build_iff` all of them.
* `Mesh.Placed` — the extremum of a group sits at a point of the mesh.
* `Mesh.placed_of_fitting` — when this is so; `Mesh.not_conforming_declaredAnew` and
  `Mesh.not_conforming_wrapped` show what happens otherwise.
-/

/-- What is found under a name is an entry of that name. -/
theorem mem_of_findEntry {α : Type} {name : String} {value : α} {entries : List (String × α)}
    (h : findEntry name entries = some value) : (name, value) ∈ entries := by
  induction entries with
  | nil => exact absurd h (by simp [findEntry])
  | cons entry rest ih =>
    unfold findEntry at h
    split at h
    · rename_i hname
      rw [← hname, ← Option.some.inj h]
      exact List.mem_cons_self
    · exact List.mem_cons_of_mem _ (ih h)

/-- How many points samples of an association sit at. -/
def Block.pointCount (b : Block) : Association → ℕ
  | .vertex => b.vertices.length
  | .element => b.elements.length

/-- There is a point for each index below that number. -/
theorem Block.exists_point? (b : Block) {association : Association} {index : ℕ}
    (h : index < b.pointCount association) : ∃ point, b.point? association index = some point := by
  cases association <;> exact ⟨_, List.getElem?_eq_getElem h⟩

/-- What a block is checked for is the number of samples that its declaration calls for, without the
    multiples of `2 ^ 64`. -/
theorem Block.toNat_expected (b : Block) (decl : FieldDecl) :
    (b.expected decl).toNat
      = b.pointCount decl.association * decl.components.toNat % 2 ^ 64 := by
  have hcount : (b.positions decl.association).length = b.pointCount decl.association := by
    cases decl.association <;> rfl
  unfold expected
  rw [UInt64.toNat_mul, hcount, Nat.toUInt64_eq, UInt64.toNat_ofNat', Nat.mod_mul_mod]

namespace Mesh

/-! ### Building a mesh -/

/-- An operation that builds a mesh. -/
inductive Step where
  | declare (field : String) (decl : FieldDecl)
  | setState (name : String) (value : StateVar)
  | setCycle (cycle : Int32)
  | addBlock (b : Block)

/-- The mesh after an operation; a block that is refused leaves it as it was. -/
def take (m : Mesh) : Step → Mesh
  | .declare field decl => m.declare field decl
  | .setState name value => m.setState name value
  | .setCycle cycle => m.setCycle cycle
  | .addBlock b => match m.addBlock b with
    | .ok m' => m'
    | .error _ => m

/-- The mesh after some operations, beginning with an empty one. -/
def build (steps : List Step) : Mesh := steps.foldl take {}

/-- The samples are as many as a declaration says: one for each component at each point. -/
def Suits (b : Block) (decl : FieldDecl) (samples : List Float) : Prop :=
  samples.length = b.pointCount decl.association * decl.components.toNat

instance (b : Block) (decl : FieldDecl) (samples : List Float) : Decidable (Suits b decl samples) :=
  inferInstanceAs (Decidable (_ = _))

/-- Every field of a block is declared, and has as many samples as the declaration says. -/
def Matches (m : Mesh) (b : Block) : Prop :=
  ∀ field samples, (field, samples) ∈ b.fields.entries →
    ∃ decl, m.schema.get? field = some decl ∧ Suits b decl samples

/-- Every block matches the declarations. -/
def Conforming (m : Mesh) : Prop := ∀ b ∈ m.blocks, m.Matches b

/-- The number of samples that a declaration calls for is one of a machine word. -/
def FitsWord (b : Block) (decl : FieldDecl) : Prop :=
  b.pointCount decl.association * decl.components.toNat < 2 ^ 64

instance (b : Block) (decl : FieldDecl) : Decidable (FitsWord b decl) :=
  inferInstanceAs (Decidable (_ < _))

/-- The blocks that are there suit a new declaration; and the declarations of a block that is not
    refused call for numbers of samples that can be counted. Other operations need nothing of this
    kind. -/
def Step.Fits (m : Mesh) : Step → Prop
  | .declare field decl => ∀ b ∈ m.blocks, ∀ samples, (field, samples) ∈ b.fields.entries →
    Suits b decl samples
  | .addBlock b => (m.addBlock b).isOk → ∀ field samples, (field, samples) ∈ b.fields.entries →
    ∀ decl, m.schema.get? field = some decl → FitsWord b decl
  | _ => True

/-- Each declaration fits the blocks that are there at that time, and each block can be checked. -/
def Fitting (steps : List Step) : Prop :=
  ∀ before step after, steps = before ++ step :: after → step.Fits (build before)

variable {m : Mesh} {b : Block} {step : Step} {steps : List Step}

/-- The last operation is done after all others. -/
theorem build_concat (steps : List Step) (step : Step) :
    build (steps ++ [step]) = (build steps).take step := by
  unfold build
  rw [List.foldl_append, List.foldl_cons, List.foldl_nil]

/-- **The check is exact** where the product does not wrap around: only then do samples that are as
    many as the check asks for suit the declaration. -/
theorem suits_iff_of_expected {decl : FieldDecl} {samples : List Float}
    (h : samples.length = (b.expected decl).toNat) : Suits b decl samples ↔ FitsWord b decl := by
  rw [b.toNat_expected] at h
  unfold Suits FitsWord
  constructor
  · intro hexact
    -- The samples are fewer than `2 ^ 64`, as they are the rest of a division.
    rw [← hexact, h]
    exact Nat.mod_lt _ (by decide)
  · intro hlt
    rw [h, Nat.mod_eq_of_lt hlt]

/-- A field of a block passes the check if it is declared and has as many samples as the check asks
    for. -/
theorem checkField_eq_ok_iff {field : String} {samples : List Float} :
    m.checkField b field samples = .ok ()
      ↔ ∃ decl, m.schema.get? field = some decl ∧ samples.length = (b.expected decl).toNat := by
  unfold checkField
  cases m.schema.get? field with
  | none => simp
  | some decl => simp

/-- A block is added if all of its fields pass the check. -/
theorem addBlock_eq_ok_iff {m' : Mesh} :
    m.addBlock b = .ok m' ↔ (∀ field samples, (field, samples) ∈ b.fields.entries →
        ∃ decl, m.schema.get? field = some decl ∧ samples.length = (b.expected decl).toNat)
      ∧ m' = { m with blocks := m.blocks ++ [b] } := by
  unfold addBlock
  rw [bind_eq_ok_iff]
  constructor
  · rintro ⟨_, hfields, hm⟩
    refine ⟨fun field samples hmem => checkField_eq_ok_iff.mp ?_, (Except.ok.inj hm).symm⟩
    exact forM_eq_ok_iff.mp hfields (field, samples) hmem
  · rintro ⟨hfields, rfl⟩
    refine ⟨(), forM_eq_ok_iff.mpr ?_, rfl⟩
    rintro ⟨field, samples⟩ hmem
    exact checkField_eq_ok_iff.mpr (hfields field samples hmem)

/-- A block that was added matches the declarations if no product has wrapped around in its
    check. -/
theorem matches_iff_of_addBlock {m' : Mesh} (h : m.addBlock b = .ok m') :
    m.Matches b ↔ (Step.addBlock b).Fits m := by
  obtain ⟨hfields, -⟩ := addBlock_eq_ok_iff.mp h
  have hok : (m.addBlock b).isOk := by rw [h]; rfl
  constructor
  · intro hmatches _ field samples hmem decl hdecl
    -- The check has passed for this field, with the declaration that it has now.
    obtain ⟨checked, hchecked, hlength⟩ := hfields field samples hmem
    obtain ⟨found, hfound, hsuits⟩ := hmatches field samples hmem
    obtain rfl : decl = checked := Option.some.inj (hdecl.symm.trans hchecked)
    obtain rfl : decl = found := Option.some.inj (hdecl.symm.trans hfound)
    exact (suits_iff_of_expected hlength).mp hsuits
  · intro hfits field samples hmem
    obtain ⟨decl, hdecl, hlength⟩ := hfields field samples hmem
    have hword := hfits hok field samples hmem decl hdecl
    exact ⟨decl, hdecl, (suits_iff_of_expected hlength).mpr hword⟩

/-! ### One operation after another -/

/-- A declaration spoils nothing if it fits the blocks that are there. -/
theorem conforming_declare_iff (h : m.Conforming) {field : String} {decl : FieldDecl} :
    (m.declare field decl).Conforming ↔ (Step.declare field decl).Fits m := by
  constructor
  · intro hafter b hb samples hsamples
    obtain ⟨found, hfound, hsuits⟩ := hafter b hb field samples hsamples
    have hself : (m.declare field decl).schema.get? field = some decl := Named.get?_insert_self ..
    rwa [Option.some.inj (hself.symm.trans hfound)]
  · intro hfits b hb other samples hsamples
    by_cases heq : field = other
    · subst heq
      exact ⟨decl, Named.get?_insert_self .., hfits b hb samples hsamples⟩
    · -- The declarations of the other fields are still there.
      obtain ⟨found, hfound, hsuits⟩ := h b hb other samples hsamples
      exact ⟨found, (Named.get?_insert_of_ne _ _ heq).trans hfound, hsuits⟩

/-- The other blocks still match when one is added, so it all depends on the new one. -/
theorem conforming_addBlock_iff (h : m.Conforming) {m' : Mesh} (hadd : m.addBlock b = .ok m') :
    m'.Conforming ↔ (Step.addBlock b).Fits m := by
  rw [← matches_iff_of_addBlock hadd]
  obtain ⟨-, rfl⟩ := addBlock_eq_ok_iff.mp hadd
  constructor
  · exact fun hafter => hafter b (List.mem_append_right _ List.mem_cons_self)
  · intro hmatches b' hb'
    rcases List.mem_append.mp hb' with hb' | hb'
    · exact h b' hb'
    · obtain rfl := List.mem_singleton.mp hb'
      exact hmatches

/-- **One operation.** The blocks match the declarations after it, unless a field is declared anew
    in a way that does not fit, or a block is added that could not be checked. -/
theorem conforming_take_iff (h : m.Conforming) (step : Step) :
    (m.take step).Conforming ↔ step.Fits m := by
  cases step with
  | declare field decl => exact conforming_declare_iff h
  | setState name value => exact ⟨fun _ => trivial, fun _ => h⟩
  | setCycle cycle => exact ⟨fun _ => trivial, fun _ => h⟩
  | addBlock b =>
    unfold take
    dsimp only
    cases hadd : m.addBlock b with
    | error e =>
      -- The block is refused, so there is nothing that could fail to match.
      refine ⟨fun _ hok => ?_, fun _ => h⟩
      rw [hadd] at hok
      exact absurd hok Bool.false_ne_true
    | ok m' => exact conforming_addBlock_iff h hadd

/-- There is nothing that could fail to match in an empty mesh. -/
theorem conforming_empty : Conforming {} := fun _ hb => absurd hb List.not_mem_nil

/-- Nothing needs to fit where nothing is done. -/
theorem fitting_nil : Fitting [] := fun before step after h => absurd h (by simp)

/-- The last operation must fit the mesh that the others have built. -/
theorem fitting_concat_iff :
    Fitting (steps ++ [step]) ↔ Fitting steps ∧ step.Fits (build steps) :=
  forall_split_concat_iff

/-- **All operations.** The blocks match the declarations all the time if each declaration fits the
    blocks that are there and each block can be checked, and only then. -/
theorem conforming_build_iff :
    (∀ before, before <+: steps → (build before).Conforming) ↔ Fitting steps := by
  induction steps using List.reverseRecOn with
  | nil =>
    refine ⟨fun _ => fitting_nil, fun _ before hbefore => ?_⟩
    obtain rfl := List.prefix_nil.mp hbefore
    exact conforming_empty
  | append_singleton steps step ih =>
    -- All but the last of the meshes are those of the shorter list.
    rw [fitting_concat_iff, ← ih]
    constructor
    · intro h
      have hbefore := h steps (List.prefix_append _ _)
      have hafter := h (steps ++ [step]) List.prefix_rfl
      rw [build_concat] at hafter
      exact ⟨fun before hinitial => h before (hinitial.trans (List.prefix_append _ _)),
        (conforming_take_iff hbefore step).mp hafter⟩
    · rintro ⟨h, hstep⟩ before hinitial
      rcases List.prefix_concat_iff.mp hinitial with rfl | hinitial
      · rw [build_concat]
        exact (conforming_take_iff (h steps List.prefix_rfl) step).mpr hstep
      · exact h before hinitial

/-! ### Declarations before blocks -/

/-- The block that an operation adds. -/
def Step.block? : Step → Option Block
  | .addBlock b => some b
  | _ => none

/-- Whether an operation declares a field. -/
def Step.isDeclaration : Step → Bool
  | .declare _ _ => true
  | _ => false

/-- Operations that add no block leave the mesh without one. -/
theorem blocks_build_eq_nil (h : ∀ step ∈ steps, step.block? = none) :
    (build steps).blocks = [] := by
  induction steps using List.reverseRecOn with
  | nil => rfl
  | append_singleton steps step ih =>
    have hbefore := ih fun other hother => h other (List.mem_append_left _ hother)
    rw [build_concat]
    cases step with
    | declare field decl => exact hbefore
    | setState name value => exact hbefore
    | setCycle cycle => exact hbefore
    | addBlock b => exact absurd (h (.addBlock b) (by simp)) (by simp [Step.block?])

/-- Whether a block is refused or not, the declarations stay the same. -/
theorem schema_take_addBlock (m : Mesh) (b : Block) : (m.take (.addBlock b)).schema = m.schema := by
  unfold take
  dsimp only
  split
  · rename_i hadd
    rw [(addBlock_eq_ok_iff.mp hadd).2]
  · rfl

/-- What is declared in the end has been declared by one of the operations. -/
theorem declare_mem_of_get? {field : String} {decl : FieldDecl}
    (h : (build steps).schema.get? field = some decl) : Step.declare field decl ∈ steps := by
  induction steps using List.reverseRecOn with
  | nil => exact absurd h (by simp [build])
  | append_singleton steps step ih =>
    rw [build_concat] at h
    cases step with
    | declare other found =>
      by_cases heq : other = field
      · subst heq
        have hself : ((build steps).declare other found).schema.get? other = some found :=
          Named.get?_insert_self ..
        obtain rfl : found = decl := Option.some.inj (hself.symm.trans h)
        exact List.mem_append_right _ List.mem_cons_self
      · refine List.mem_append_left _ (ih ?_)
        rw [← h]
        exact (Named.get?_insert_of_ne _ _ heq).symm
    | setState name value => exact List.mem_append_left _ (ih h)
    | setCycle cycle => exact List.mem_append_left _ (ih h)
    | addBlock b =>
      rw [schema_take_addBlock] at h
      exact List.mem_append_left _ (ih h)

/-- It is enough to declare all fields before the first block is added, if none of the declarations
    calls for more samples of a block than can be counted. -/
theorem fitting_append {setup rest : List Step} (hsetup : ∀ step ∈ setup, step.block? = none)
    (hrest : ∀ step ∈ rest, step.isDeclaration = false)
    (hcount : ∀ b, Step.addBlock b ∈ rest → ∀ field decl, Step.declare field decl ∈ setup →
      FitsWord b decl) : Fitting (setup ++ rest) := by
  intro before step after heq
  have hmem : step ∈ setup ++ rest := by simp [heq]
  cases step with
  | declare field decl =>
    -- It cannot be one of the later operations, so there is no block that it would have to suit.
    have hinitial : before <+: setup := by
      rcases List.append_eq_append_iff.mp heq with ⟨between, -, hlater⟩ | ⟨between, hsetup, -⟩
      · exact absurd (hrest (.declare field decl) (by simp [hlater])) (by simp [Step.isDeclaration])
      · exact ⟨between, hsetup.symm⟩
    have hblocks : (build before).blocks = [] :=
      blocks_build_eq_nil fun other hother => hsetup other (hinitial.subset hother)
    intro b hb
    rw [hblocks] at hb
    exact absurd hb List.not_mem_nil
  | setState name value => trivial
  | setCycle cycle => trivial
  | addBlock b =>
    intro _ field samples _ decl hdecl
    have hblock : Step.addBlock b ∈ rest := by
      rcases List.mem_append.mp hmem with hmem | hmem
      · exact absurd (hsetup _ hmem) (by simp [Step.block?])
      · exact hmem
    have hdeclared : Step.declare field decl ∈ setup ++ rest := by
      rw [heq]
      exact List.mem_append_left _ (declare_mem_of_get? hdecl)
    rcases List.mem_append.mp hdeclared with hdeclared | hdeclared
    · exact hcount b hblock field decl hdeclared
    · exact absurd (hrest _ hdeclared) (by simp [Step.isDeclaration])

/-! ### The points of extrema -/

section Placed

variable {meshes : List Mesh} {field : String} {decl : FieldDecl}

/-- Where all blocks match the declarations, every sample sits at a point of its block. -/
theorem position_of_conforming (hconforming : ∀ m ∈ meshes, m.Conforming)
    (hdecl : ∀ m ∈ meshes, m.schema.get? field = some decl) (hscalar : decl.components = 1)
    {s : Spot} {c : Located} (h : sampleAt? meshes field decl s = some c) :
    ∃ m b, meshes[s.rank]? = some m ∧ m.blocks[s.block]? = some b
      ∧ b.point? decl.association s.index = some c.position := by
  unfold sampleAt? at h
  simp only [Option.bind_eq_bind, Option.bind_eq_some_iff] at h
  obtain ⟨m, hm, b, hb, samples, hsamples, value, hvalue, hc⟩ := h
  obtain rfl := Option.some.inj hc
  have hmem := List.mem_of_getElem? hm
  obtain ⟨found, hfound, hsuits⟩ := hconforming m hmem b (List.mem_of_getElem? hb) field samples
    (mem_of_findEntry hsamples)
  obtain rfl : decl = found := Option.some.inj ((hdecl m hmem).symm.trans hfound)
  -- With one component there are as many samples as points.
  have hlt : s.index < b.pointCount decl.association := by
    unfold Suits at hsuits
    rw [hscalar, UInt64.toNat_one, Nat.mul_one] at hsuits
    rw [← hsuits]
    exact (List.getElem?_eq_some_iff.mp hvalue).1
  obtain ⟨point, hpoint⟩ := b.exists_point? hlt
  exact ⟨m, b, hm, hb, by simp [hpoint]⟩

/-- What a group finds as an extremum of a field: all ranks find the same, and if this is a sample,
    then the first one that no other one is better than, at a point of its block. -/
def Placed (which : Extreme) (meshes : List Mesh) (field : String) (decl : FieldDecl) : Prop :=
  ∃ answer, Collective.runRanks (meshes.map fun m => (m.extremum which field).run)
      = some (List.replicate meshes.length answer)
    ∧ Answers (fun x y => which.improves x y = true) meshes field decl answer
    ∧ ∀ c, answer = .ok c → ∃ s m b,
      FirstExtreme (fun x y => which.improves x y = true) (sampleAt? meshes field decl) s c
        ∧ meshes[s.rank]? = some m ∧ m.blocks[s.block]? = some b
        ∧ b.point? decl.association s.index = some c.position

/-- Where all blocks match the declarations, the extremum of a group sits at a point. -/
theorem placed_of_conforming (hconforming : ∀ m ∈ meshes, m.Conforming)
    (hdecl : ∀ m ∈ meshes, m.schema.get? field = some decl) (hscalar : decl.components = 1)
    (which : Extreme) : Placed which meshes field decl := by
  have hanswers := answers_extremumOf which meshes field decl
  refine ⟨_, runRanks_extremum which hscalar hdecl, hanswers, fun c hc => ?_⟩
  obtain ⟨s, hs⟩ := (hanswers.ok_iff c).mp hc
  obtain ⟨m, b, hm, hb, hposition⟩ := position_of_conforming hconforming hdecl hscalar hs.sample
  exact ⟨s, m, b, hs, hm, hb, hposition⟩

end Placed

/-! ### The main result -/

/-- **Blocks match the declarations** on each rank of a group all the time if each declaration fits
    the blocks that are there and each block can be checked, and only then. If this is so on all
    ranks, then an extremum sits at a point of the block that has the sample. -/
theorem placed_of_fitting (group : List (List Step)) :
    (∀ steps ∈ group, (∀ before, before <+: steps → (build before).Conforming) ↔ Fitting steps)
      ∧ ((∀ steps ∈ group, Fitting steps) → ∀ field decl, decl.components = 1 →
        (∀ steps ∈ group, (build steps).schema.get? field = some decl) →
          ∀ which, Placed which (group.map build) field decl) := by
  refine ⟨fun steps _ => conforming_build_iff, fun hgroup field decl hscalar hdecl which => ?_⟩
  refine placed_of_conforming ?_ ?_ hscalar which
  · intro m hm
    obtain ⟨steps, hsteps, rfl⟩ := List.mem_map.mp hm
    exact conforming_build_iff.mpr (hgroup steps hsteps) steps List.prefix_rfl
  · intro m hm
    obtain ⟨steps, hsteps, rfl⟩ := List.mem_map.mp hm
    exact hdecl steps hsteps

/-- A block with one vertex, and a sample there. -/
def vertexBlock : Block :=
  { vertices := [⟨1, 2, 3⟩], fields := (∅ : Named (List Float)).insert "e" [5] }

/-- The block is added between two cycles, once the field is declared. -/
def declaredFirst : List Step :=
  [.declare "e" ⟨.vertex, 1⟩, .setCycle 3] ++ [.addBlock vertexBlock, .setCycle 4]

/-- A group of one rank. -/
theorem placed_of_declaredFirst :
    Fitting declaredFirst
      ∧ (∀ before, before <+: declaredFirst → (build before).Conforming)
      ∧ Placed .min [build declaredFirst] "e" ⟨.vertex, 1⟩
      ∧ ((build declaredFirst).fieldMin "e").run.runAlone = .ok ⟨5, ⟨1, 2, 3⟩⟩ := by
  have hfitting : Fitting declaredFirst := by
    refine fitting_append (by simp [Step.block?]) (by simp [Step.isDeclaration]) ?_
    rintro b hb field decl hdecl
    obtain rfl : b = vertexBlock := by simpa using hb
    obtain ⟨rfl, rfl⟩ : field = "e" ∧ decl = ⟨.vertex, 1⟩ := by simpa using hdecl
    decide
  obtain ⟨hconforming, hplaced⟩ := placed_of_fitting [declaredFirst]
  refine ⟨hfitting, (hconforming _ List.mem_cons_self).mpr hfitting, ?_, by rfl⟩
  exact hplaced (by simpa using hfitting) "e" ⟨.vertex, 1⟩ rfl (by simp; rfl) .min

/-- The field is declared anew when the block is there, now with samples at the elements. -/
def declaredAnew : List Step :=
  [.declare "e" ⟨.vertex, 1⟩, .addBlock vertexBlock, .declare "e" ⟨.element, 1⟩]

/-- **A declaration that does not fit** is not refused. The block does not match it, and the least
    sample is found at the origin, which is no point of the mesh. -/
theorem not_conforming_declaredAnew :
    ¬(build declaredAnew).Conforming
      ∧ ((build declaredAnew).fieldMin "e").run.runAlone = .ok ⟨5, .zero⟩
      ∧ ∀ b ∈ (build declaredAnew).blocks, Vec3.zero ∉ b.vertices ∧ Vec3.zero ∉ b.elements := by
  have hblocks : (build declaredAnew).blocks = [vertexBlock] := by rfl
  have hdecl : (build declaredAnew).schema.get? "e" = some ⟨.element, 1⟩ := by rfl
  rw [Conforming, hblocks]
  refine ⟨fun h => ?_, by rfl, ?_⟩
  · obtain ⟨found, hfound, hsuits⟩ := h vertexBlock (by simp) "e" [5] (.head _)
    obtain rfl := Option.some.inj (hdecl.symm.trans hfound)
    -- There is one sample, and there are no elements.
    exact absurd hsuits (by decide)
  · intro b hb
    obtain rfl := List.mem_singleton.mp hb
    exact ⟨by decide, by decide⟩

/-- A block with two vertices, and no samples of the field that it lists. -/
def hollowBlock : Block :=
  { vertices := [⟨1, 2, 3⟩, ⟨4, 5, 6⟩], fields := (∅ : Named (List Float)).insert "v" [] }

/-- The field is declared with so many components that twice as many are none. -/
def wrapped : List Step :=
  [.declare "v" ⟨.vertex, 9223372036854775808⟩, .addBlock hollowBlock]

/-- **A product that wraps around.** The block is not refused, and it does not match the
    declaration. -/
theorem not_conforming_wrapped :
    (build wrapped).blocks = [hollowBlock] ∧ ¬(build wrapped).Conforming := by
  have hblocks : (build wrapped).blocks = [hollowBlock] := by rfl
  have hdecl : (build wrapped).schema.get? "v" = some ⟨.vertex, 9223372036854775808⟩ := by rfl
  refine ⟨hblocks, fun h => ?_⟩
  rw [Conforming, hblocks] at h
  obtain ⟨found, hfound, hsuits⟩ := h hollowBlock (by simp) "v" [] (.head _)
  obtain rfl := Option.some.inj (hdecl.symm.trans hfound)
  exact absurd hsuits (by decide)

end Mesh

end MeshExpr
