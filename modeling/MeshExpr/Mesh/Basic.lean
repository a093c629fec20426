import MeshExpr.Mesh.Error
import MeshExpr.Value.Basic

namespace MeshExpr

/-!
# Meshes

The part of a distributed mesh that one rank owns: the declarations of fields and the state
variables, which all ranks share, and the blocks of the rank with their points and samples.

* `Mesh` is the type, `Mesh.declare`, `Mesh.addBlock` and `Mesh.setState` build it.
* `Mesh.addBlock` wants every field of a block to be declared and to have `Block.expected` floats.
  This is a product of machine words, so that a declaration with very many components can call for
  fewer floats than it says.
-/

/-- Where the samples of a field sit. -/
inductive Association where
  | vertex
  | element
deriving DecidableEq, Repr

/-- The declaration of a field. -/
structure FieldDecl where
  association : Association
  /-- How many floats a sample has. -/
  components : UInt64
deriving DecidableEq, Repr

/-- A block of the mesh. -/
structure Block where
  vertices : List Vec3 := []
  /-- The centres of the elements. -/
  elements : List Vec3 := []
  /-- The samples of each field, component by component. -/
  fields : Named (List Float) := ∅
deriving DecidableEq, Inhabited

namespace Block

/-- The points at which samples of an association sit. -/
def positions (b : Block) : Association → List Vec3
  | .vertex => b.vertices
  | .element => b.elements

/-- How many floats a field of the block must have by its declaration. The product wraps around. -/
def expected (b : Block) (decl : FieldDecl) : UInt64 :=
  (b.positions decl.association).length.toUInt64 * decl.components

end Block

/-- The content of a state variable. -/
inductive StateVar where
  | number (n : Number)
  | text (s : String)
deriving DecidableEq, Inhabited

/-- What one rank owns of a mesh. -/
structure Mesh where
  schema : Named FieldDecl := ∅
  blocks : List Block := []
  state : Named StateVar := ∅
deriving DecidableEq, Inhabited

namespace Mesh

/-- Declares a field, in place of an earlier declaration of the same name. -/
def declare (m : Mesh) (field : String) (decl : FieldDecl) : Mesh :=
  { m with schema := m.schema.insert field decl }

/-- Sets a state variable. -/
def setState (m : Mesh) (name : String) (value : StateVar) : Mesh :=
  { m with state := m.state.insert name value }

/-- The name of the state variable that holds the number of the cycle. -/
def cycleName : String := "cycle"

/-- Sets the number of the cycle. -/
def setCycle (m : Mesh) (cycle : Int32) : Mesh := m.setState cycleName (.number (.int cycle))

/-- The content of a state variable. -/
def stateVar? (m : Mesh) (name : String) : Option StateVar := m.state.get? name

/-- The names of the declared fields in order. -/
def fieldNames (m : Mesh) : List String := m.schema.names

/-- Whether a field is declared. -/
def hasField (m : Mesh) (field : String) : Bool := m.schema.contains field

/-- Whether a field is declared with one component. -/
def isScalarField (m : Mesh) (field : String) : Bool :=
  (m.schema.get? field).any (·.components == 1)

/-- Checks one field of a block against its declaration. -/
def checkField (m : Mesh) (b : Block) (field : String) (samples : List Float) :
    Except MeshError Unit :=
  match m.schema.get? field with
  | none => .error (.schemaMismatch field .undeclared)
  | some decl =>
    if samples.length = (b.expected decl).toNat then .ok ()
    else .error (.schemaMismatch field (.length (b.expected decl) samples.length))

/-- Adds a block behind the others, if all its fields fit their declarations; the first one that
    does not, in the order of the names, is reported. -/
def addBlock (m : Mesh) (b : Block) : Except MeshError Mesh := do
  b.fields.entries.forM fun (field, samples) => m.checkField b field samples
  return { m with blocks := m.blocks ++ [b] }

/-- The declaration of a field with one component. -/
def scalarDecl (m : Mesh) (field : String) : Except MeshError FieldDecl :=
  match m.schema.get? field with
  | none => .error (.fieldNotFound field)
  | some decl =>
    if decl.components = 1 then .ok decl
    else .error (.schemaMismatch field (.components decl.components))

/-- The samples of a field in each block that has it, with the points of the association. -/
def samples (m : Mesh) (field : String) (decl : FieldDecl) : List (List Float × List Vec3) :=
  m.blocks.filterMap fun b =>
    (b.fields.get? field).map fun values => (values, b.positions decl.association)

end Mesh

end MeshExpr
