import MeshExpr.Filter.Param

namespace MeshExpr

/-!
# The catalog of filters

The sixteen filters that a graph can be made of. For each of them the catalog knows the name that
graphs use, the input ports, the parameter, and whether it takes part in an exchange between ranks.

* `Filter.all` is the catalog in order, `Filter.ofName?` finds a filter by its name.
* `Filter.ports` are the input ports; the place of a port is the place of the argument.
-/

/-- An input port. -/
structure Port where
  name : String
  /-- Whether the argument may be the empty value. The port has to be wired all the same. -/
  optional : Bool := false
deriving DecidableEq, Repr

/-- A filter. -/
inductive Filter where
  /-- The empty value, which stands for an argument that is left out. -/
  | nullArg
  /-- The last value recorded under a name. -/
  | identifier
  | integer
  | double
  /-- The name of a field. -/
  | fieldRef
  | binaryOp
  | scalarMin
  | scalarMax
  | fieldMin
  | fieldMax
  | fieldAvg
  | histogram
  /-- The position attached to a value. -/
  | position
  /-- The number of the simulation cycle. -/
  | cycle
  /-- A vector from its three components. -/
  | vector
  /-- The length of a vector. -/
  | magnitude
deriving DecidableEq, Repr, Inhabited

namespace Filter

/-- The families of filters. -/
inductive Family where
  | leaf
  | operator
  | reduction
  | derived
deriving DecidableEq, Repr

/-- The catalog. -/
def all : List Filter :=
  [nullArg, identifier, integer, double, fieldRef, binaryOp, scalarMin, scalarMax, fieldMin,
    fieldMax, fieldAvg, histogram, position, cycle, vector, magnitude]

/-- The name that graphs use. -/
def name : Filter → String
  | nullArg => "null_arg"
  | identifier => "expr_identifier"
  | integer => "expr_integer"
  | double => "expr_double"
  | fieldRef => "expr_meshvar"
  | binaryOp => "expr_binary_op"
  | scalarMin => "scalar_min"
  | scalarMax => "scalar_max"
  | fieldMin => "field_min"
  | fieldMax => "field_max"
  | fieldAvg => "field_avg"
  | histogram => "histogram"
  | position => "expr_position"
  | cycle => "cycle"
  | vector => "vector"
  | magnitude => "magnitude"

/-- The filter of a name. -/
def ofName? (name : String) : Option Filter := all.find? (·.name == name)

/-- The family of a filter. -/
def family : Filter → Family
  | nullArg | identifier | integer | double | fieldRef => .leaf
  | binaryOp => .operator
  | scalarMin | scalarMax | fieldMin | fieldMax | fieldAvg | histogram => .reduction
  | position | cycle | vector | magnitude => .derived

/-- The input ports of a filter. -/
def ports : Filter → List Port
  | nullArg | identifier | integer | double | fieldRef | cycle => []
  | binaryOp => [⟨"lhs", false⟩, ⟨"rhs", false⟩]
  | scalarMin | scalarMax => [⟨"arg1", false⟩, ⟨"arg2", false⟩]
  | fieldMin | fieldMax | fieldAvg | position | magnitude => [⟨"arg1", false⟩]
  | histogram => [⟨"field", false⟩, ⟨"num_bins", true⟩, ⟨"min_val", true⟩, ⟨"max_val", true⟩]
  | vector => [⟨"arg1", false⟩, ⟨"arg2", false⟩, ⟨"arg3", false⟩]

/-- The parameter that a filter wants. -/
def paramSpec : Filter → ParamSpec
  | identifier | fieldRef => .name
  | integer => .int
  | double => .float
  | binaryOp => .op
  | _ => .nothing

/-- Whether a filter takes part in an exchange between ranks. -/
def isCollective : Filter → Bool
  | fieldMin | fieldMax | fieldAvg | histogram => true
  | _ => false

/-- The number of a filter in the catalog. -/
def index (f : Filter) : Nat := all.idxOf f

/-- The place of a port. -/
def portIndex? (f : Filter) (port : String) : Option Nat := f.ports.findIdx? (·.name == port)

/-- The names of the ports in a message. -/
def portNames (f : Filter) : String := ", ".intercalate (f.ports.map (·.name))

/-- No filter is missing in the catalog. -/
theorem mem_all (f : Filter) : f ∈ all := by cases f <;> decide

/-- Each filter is found under its own name. -/
theorem ofName?_name (f : Filter) : ofName? f.name = some f := by cases f <;> decide

/-- A name is that of one filter at most. -/
theorem ofName?_eq_some_iff {name : String} {f : Filter} :
    ofName? name = some f ↔ f.name = name := by
  constructor
  · intro h
    simpa using List.find?_some h
  · rintro rfl
    exact ofName?_name f

/-- No filter has two ports of one name. -/
theorem nodup_ports (f : Filter) : (f.ports.map (·.name)).Nodup := by cases f <;> decide

/-- Only reductions take part in an exchange. -/
theorem family_of_isCollective {f : Filter} (h : f.isCollective) : f.family = .reduction := by
  cases f <;> simp_all [isCollective, family]

/-- The place of a port is one of the places that a filter has. -/
theorem portIndex?_lt {f : Filter} {port : String} {slot : Nat}
    (h : f.portIndex? port = some slot) :
    slot < f.ports.length := by
  simp only [portIndex?, List.findIdx?_eq_some_iff_getElem] at h
  exact h.1

end Filter

end MeshExpr
