import MeshExpr.Json.Basic
import MeshExpr.Decimal.Layout

namespace MeshExpr.Json

/-!
# Writing JSON

The compact text of a value: no blanks, fields in the order of the object, floats in the layout of
documents, and `null` for a float that is not finite.

* `quote` writes a string; `escape` is what it writes for one character.
* `chars` writes a value, `render` as a `String`.
-/

/-- The lower-case hexadecimal digit of a number below sixteen. -/
def hexDigit (n : Nat) : Char := Nat.digitChar n

/-- What stands for a character between quotes: quotes, backslashes and the characters below
    U+0020 are escaped, five of these by a letter. -/
def escape (c : Char) : List Char :=
  if c = '"' then ['\\', '"']
  else if c = '\\' then ['\\', '\\']
  else if c = '\x08' then ['\\', 'b']
  else if c = '\x0c' then ['\\', 'f']
  else if c = '\n' then ['\\', 'n']
  else if c = '\r' then ['\\', 'r']
  else if c = '\t' then ['\\', 't']
  else if c.toNat < 0x20 then
    ['\\', 'u', '0', '0', hexDigit (c.toNat / 16), hexDigit (c.toNat % 16)]
  else [c]

/-- A string between quotes. -/
def quote (s : String) : List Char := '"' :: s.toList.flatMap escape ++ ['"']

/-- A float as documents write it. -/
def writeFloat (x : Float) : List Char :=
  if x.isFinite then (Decimal.Layout.document.write x).toList else ['n', 'u', 'l', 'l']

mutual
/-- The characters of a value. -/
def chars : Json → List Char
  | .null => ['n', 'u', 'l', 'l']
  | .bool true => ['t', 'r', 'u', 'e']
  | .bool false => ['f', 'a', 'l', 's', 'e']
  | .int n => (toString n).toList
  | .float x => writeFloat x
  | .string s => quote s
  | .list items => '[' :: itemChars items ++ [']']
  | .object fields => '\x7b' :: fieldChars fields ++ ['\x7d']

/-- The items of a list with commas between them. -/
def itemChars : List Json → List Char
  | [] => []
  | [item] => chars item
  | item :: rest => chars item ++ ',' :: itemChars rest

/-- The fields of an object with commas between them. -/
def fieldChars : List (String × Json) → List Char
  | [] => []
  | [(name, value)] => quote name ++ ':' :: chars value
  | (name, value) :: rest => quote name ++ ':' :: chars value ++ ',' :: fieldChars rest
end

/-- The compact text of a value. -/
def render (j : Json) : String := String.ofList (chars j)

end MeshExpr.Json
