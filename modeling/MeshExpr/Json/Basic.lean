import MeshExpr.Named

namespace MeshExpr

/-!
# JSON values

The values that a document can hold. A number keeps how it was spelled: whole numbers of sixty-four
bits are integers, all others are floats. The fields of an object are listed in the order in which
they are written; `Json.table` lists them by name.

* `Json.float?` reads a number of either spelling as a float.
* `Json.same` compares two values, floats by their numerical value.
-/

/-- A JSON value. -/
inductive Json where
  | null
  | bool (b : Bool)
  /-- A number spelled without point and exponent that fits in sixty-four bits, with or without
      a sign. -/
  | int (n : Int)
  /-- Any other number. -/
  | float (x : Float)
  | string (s : String)
  | list (items : List Json)
  | object (fields : List (String × Json))
deriving Inhabited

namespace Json

/-- The greatest integer of sixty-four bits without a sign. -/
def maxWord : Int := 18446744073709551615

/-- The integers of sixty-four bits, with a sign or without. -/
def isWord (n : Int) : Bool := -9223372036854775808 ≤ n && n ≤ maxWord

/-- A table as an object whose fields are in the order of their names. -/
def table (t : Named Json) : Json := .object t.entries

/-- The float nearest to a number. -/
def float? : Json → Option Float
  | .int n => some (Float.ofInt n)
  | .float x => some x
  | _ => none

mutual
/-- Whether two values are equal, where floats are compared by value: `0.0` equals `-0.0`, no NaN
    equals anything, and an integer equals no float. -/
def same : Json → Json → Bool
  | .null, .null => true
  | .bool a, .bool b => a == b
  | .int a, .int b => a == b
  | .float a, .float b => a == b
  | .string a, .string b => a == b
  | .list a, .list b => sameItems a b
  | .object a, .object b => sameFields a b
  | _, _ => false

/-- Whether two lists are equal item by item. -/
def sameItems : List Json → List Json → Bool
  | [], [] => true
  | a :: as, b :: bs => same a b && sameItems as bs
  | _, _ => false

/-- Whether two objects list equal fields in the same order. -/
def sameFields : List (String × Json) → List (String × Json) → Bool
  | [], [] => true
  | (k, a) :: as, (l, b) :: bs => k == l && same a b && sameFields as bs
  | _, _ => false
end

end Json

end MeshExpr
