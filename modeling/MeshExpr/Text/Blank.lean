namespace MeshExpr.Text

/-!
# Blank characters

The characters with the property `White_Space`, and the texts made of nothing else. A name that
is blank in this sense names nothing, so parameters and settings refuse it.
-/

/-- The ranges of code points with the property `White_Space`, ends included. -/
def blankRanges : List (Nat × Nat) :=
  [(0x9, 0xD), (0x20, 0x20), (0x85, 0x85), (0xA0, 0xA0), (0x1680, 0x1680), (0x2000, 0x200A),
    (0x2028, 0x2029), (0x202F, 0x202F), (0x205F, 0x205F), (0x3000, 0x3000)]

/-- Whether a character has the property `White_Space`. -/
def isBlankChar (c : Char) : Bool :=
  blankRanges.any fun (low, high) => low ≤ c.toNat && c.toNat ≤ high

/-- Whether a text has no character but blank ones. -/
def isBlank (s : String) : Bool := s.toList.all isBlankChar

/-- The property has twenty-five characters. -/
example : (blankRanges.map fun (low, high) => high + 1 - low).sum = 25 := by decide

end MeshExpr.Text
