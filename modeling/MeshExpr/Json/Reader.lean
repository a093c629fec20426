import MeshExpr.Decimal.Stepwise
import MeshExpr.Json.Tree

namespace MeshExpr.Json

/-!
# Reading JSON

From characters to trees. Each scanner takes the characters that belong to one token or value off
the front of the text and leaves the rest; where it cannot go on it says what is reported there.

* `scanQuoted` scans what follows an opening quote, `scanNumber` a number, `scanWord` a literal.
* `scanValue` scans a value with everything in it.
* `Document.ofText` scans a whole text, `Document.read` also wants nothing but blanks after it.
-/

/-- The outcome of a scanner: what it found and the rest of the text, or what is reported where
    the text breaks off. -/
inductive Scan (α : Type) where
  | found (value : α) (rest : List Char)
  | broken (report : Report)

/-- Whether a character may stand between two tokens. -/
def isSpace (c : Char) : Bool := c == ' ' || c == '\t' || c == '\n' || c == '\r'

/-- Drops the blanks before a token. -/
def skipSpace (cs : List Char) : List Char := cs.dropWhile isSpace

/-! ### Strings -/

/-- The number of a hexadecimal digit. -/
def hexValue? (c : Char) : Option Nat :=
  if c.isDigit then some (c.toNat - '0'.toNat)
  else if 'a' ≤ c && c ≤ 'f' then some (c.toNat - 'a'.toNat + 10)
  else if 'A' ≤ c && c ≤ 'F' then some (c.toNat - 'A'.toNat + 10)
  else none

/-- The number of four hexadecimal digits. -/
def hexUnit? (a b c d : Char) : Option Nat := do
  return (((← hexValue? a) * 16 + (← hexValue? b)) * 16 + (← hexValue? c)) * 16 + (← hexValue? d)

/-- What is reported when no four hexadecimal digits follow: the end of the text if fewer than
    four bytes are left. -/
def missingHex (cs : List Char) : Fault :=
  if (String.ofList (cs.take 4)).utf8ByteSize < 4 then .truncated else .malformed

/-- The character that the letter after a backslash stands for. -/
def unescape? : Char → Option Char
  | '"' => some '"'
  | '\\' => some '\\'
  | '/' => some '/'
  | 'b' => some '\x08'
  | 'f' => some '\x0c'
  | 'n' => some '\n'
  | 'r' => some '\r'
  | 't' => some '\t'
  | _ => none

/-- Whether a unit is the first half of a surrogate pair. -/
def isLeading (unit : Nat) : Bool := 0xD800 ≤ unit && unit < 0xDC00

/-- Whether a unit is the second half of a surrogate pair. -/
def isTrailing (unit : Nat) : Bool := 0xDC00 ≤ unit && unit < 0xE000

/-- The character of a surrogate pair. -/
def joinPair (leading trailing : Nat) : Char :=
  Char.ofNat (0x10000 + (leading - 0xD800) * 0x400 + (trailing - 0xDC00))

/-- A piece of a string: a character, or half of a surrogate pair. -/
inductive Piece where
  | char (c : Char)
  | half (unit : Nat)
deriving DecidableEq, Repr

/-- The piece that four hexadecimal digits spell. -/
def Piece.ofUnit (unit : Nat) : Piece :=
  if isLeading unit || isTrailing unit then .half unit else .char (Char.ofNat unit)

/-- The characters of a string, unless half of a surrogate pair stands alone in it. -/
def joinPieces : List Piece → Option (List Char)
  | [] => some []
  | .char c :: rest => (joinPieces rest).map (c :: ·)
  | .half u :: .half v :: rest =>
    if isLeading u && isTrailing v then (joinPieces rest).map (joinPair u v :: ·) else none
  | .half _ :: _ => none

/-- Whether half of a surrogate pair is known to stand alone, whatever pieces follow. -/
def isSpoiled : List Piece → Bool
  | [] => false
  | .char _ :: rest => isSpoiled rest
  | [.half u] => isTrailing u
  | .half u :: .half v :: rest => !(isLeading u && isTrailing v) || isSpoiled rest
  | .half _ :: .char _ :: _ => true

/-- The pieces up to the closing quote, and the rest of the text or what is reported where the
    string breaks off. -/
def scanPieces : List Char → List Piece × Except Report (List Char)
  | [] => ([], .error .truncated)
  | '"' :: rest => ([], .ok rest)
  | ['\\'] => ([], .error .truncated)
  | '\\' :: 'u' :: a :: b :: c :: d :: rest => match hexUnit? a b c d with
    | none =>
      -- Digits that are wrong or missing are reported in the same way, whether the string is wanted
      -- or skipped.
      let fault := missingHex (a :: b :: c :: d :: rest)
      ([], .error ⟨fault, fault⟩)
    | some unit =>
      let (pieces, stop) := scanPieces rest
      (.ofUnit unit :: pieces, stop)
  | '\\' :: 'u' :: rest =>
    let fault := missingHex rest
    ([], .error ⟨fault, fault⟩)
  | '\\' :: letter :: rest => match unescape? letter with
    | none => ([], .error .malformed)
    | some c =>
      let (pieces, stop) := scanPieces rest
      (.char c :: pieces, stop)
  | c :: rest =>
    if c.toNat < 0x20 then ([], .error .malformed)
    else
      let (pieces, stop) := scanPieces rest
      (.char c :: pieces, stop)

/-- Scans up to the closing quote. The text is `none` when half of a surrogate pair stands alone
    in it; where the string breaks off later, a reader has already reported that. -/
def scanQuoted (cs : List Char) : Scan (Option (List Char)) :=
  match scanPieces cs with
  | (pieces, .ok rest) => .found (joinPieces pieces) rest
  | (pieces, .error report) =>
    .broken (if isSpoiled pieces then ⟨.malformed, report.skipped⟩ else report)

/-! ### Numbers and literals -/

/-- The parts of a number as it is spelled. -/
structure Spelling where
  negative : Bool
  whole : List Char
  /-- The digits after the point, if there is one. -/
  fraction : Option (List Char)
  /-- Whether the exponent is negative and its digits, if there is one. -/
  exponent : Option (Bool × List Char)
deriving DecidableEq, Repr

/-- The number that a run of digits spells. -/
def digitsValue (ds : List Char) : Nat :=
  ds.foldl (fun n d => n * 10 + Decimal.digitValue d) 0

namespace Spelling

/-- The size of the number, as far as sixty-four bits hold its digits. -/
def decimal (s : Spelling) : Decimal :=
  let d := Decimal.ofDigits s.whole (s.fraction.getD [])
  let shift : Int := match s.exponent with
    | none => 0
    | some (negative, ds) => if negative then -(digitsValue ds) else digitsValue ds
  -- The exponent is exact here; it is only cut off where the float is made.
  { d with exponent := d.exponent + shift }

/-- The float that the number is read as, unless it is beyond all floats. -/
def float? (s : Spelling) : Option Float :=
  s.decimal.stepwise?.map fun size => if s.negative then -size else size

/-- The value of the number: without point and exponent an integer, unless it is `-0` or beyond
    sixty-four bits; otherwise a float. -/
def tree (s : Spelling) : Tree :=
  let whole : Int := if s.negative then -(digitsValue s.whole) else digitsValue s.whole
  -- The integer `0` has no sign, so that `-0` has to be a float.
  if s.fraction.isNone && s.exponent.isNone && isWord whole && !(s.negative && whole == 0) then
    .int whole
  else match s.float? with
    | some x => .float x
    | none => .unusable

end Spelling

/-- What is reported where a digit is missing. -/
def missingDigit (rest : List Char) : Report :=
  if rest.isEmpty then ⟨.truncated, .malformed⟩ else .malformed

/-- Splits a run of digits off the front. -/
def spanDigits (cs : List Char) : List Char × List Char :=
  (cs.takeWhile (·.isDigit), cs.dropWhile (·.isDigit))

/-- Scans the exponent of a number, if there is one. -/
def scanExponent (cs : List Char) : Scan (Option (Bool × List Char)) :=
  match cs with
  | c :: rest =>
    if c == 'e' || c == 'E' then
      let (negative, rest) := match rest with
        | '-' :: rest => (true, rest)
        | '+' :: rest => (false, rest)
        | rest => (false, rest)
      let (ds, rest) := spanDigits rest
      if ds.isEmpty then .broken (missingDigit rest) else .found (some (negative, ds)) rest
    else .found none cs
  | [] => .found none []

/-- Scans the fraction of a number, if there is one. -/
def scanFraction (cs : List Char) : Scan (Option (List Char)) :=
  match cs with
  | '.' :: rest =>
    let (ds, rest) := spanDigits rest
    if ds.isEmpty then .broken (missingDigit rest) else .found (some ds) rest
  | cs => .found none cs

/-- Scans a number. No digit may follow a zero at its front. -/
def scanNumber (cs : List Char) : Scan Spelling :=
  let (negative, rest) := match cs with
    | '-' :: rest => (true, rest)
    | rest => (false, rest)
  match spanDigits rest with
  | ([], rest) => .broken (missingDigit rest)
  | ('0' :: _ :: _, _) => .broken .malformed
  | (whole, rest) => match scanFraction rest with
    | .broken report => .broken report
    | .found fraction rest => match scanExponent rest with
      | .broken report => .broken report
      | .found exponent rest => .found ⟨negative, whole, fraction, exponent⟩ rest

/-- Scans the remaining letters of a literal. -/
def scanWord (value : Tree) : List Char → List Char → Tree × List Char
  | [], rest => (value, rest)
  | _ :: _, [] => (.broken .truncated, [])
  | letter :: letters, c :: rest =>
    if letter = c then scanWord value letters rest else (.broken .malformed, [])

/-! ### Values -/

mutual
/-- Scans a value. -/
def scanValue : Nat → List Char → Tree × List Char
  | 0, _ => (.absent, [])
  | fuel + 1, cs => match skipSpace cs with
    | [] => (.absent, [])
    | '"' :: rest => match scanQuoted rest with
      | .found (some text) rest => (.string (String.ofList text), rest)
      | .found none rest => (.unusable, rest)
      | .broken report => (.brokenString report, [])
    | '[' :: rest => match skipSpace rest with
      | [] => (.list [] .cut, [])
      | ']' :: rest => (.list [] .closed, rest)
      | rest =>
        let (items, ending, rest) := scanItems fuel rest
        (.list items ending, rest)
    | '\x7b' :: rest => match skipSpace rest with
      | [] => (.object [] .cut, [])
      | '\x7d' :: rest => (.object [] .closed, rest)
      | '"' :: rest =>
        let (fields, ending, rest) := scanFields fuel rest
        (.object fields ending, rest)
      | _ => (.object [] .stray, [])
    | 'n' :: rest => scanWord .null ['u', 'l', 'l'] rest
    | 't' :: rest => scanWord (.bool true) ['r', 'u', 'e'] rest
    | 'f' :: rest => scanWord (.bool false) ['a', 'l', 's', 'e'] rest
    | c :: rest =>
      -- What begins like no value at all is malformed, and nothing behind it is looked at.
      if c == '-' || c.isDigit then match scanNumber (c :: rest) with
        | .found spelling rest => (spelling.tree, rest)
        | .broken report => (.broken report, [])
      else (.broken .malformed, [])

/-- Scans the items of a list from the first character of an item on. -/
def scanItems : Nat → List Char → List Tree × Ending × List Char
  | 0, _ => ([], .cut, [])
  | fuel + 1, cs =>
    let (item, rest) := scanValue fuel cs
    match skipSpace rest with
    | [] => ([item], .cut, [])
    | ']' :: rest => ([item], .closed, rest)
    | ',' :: rest => match skipSpace rest with
      | [] => ([item], .cutAfterComma, [])
      -- A comma must be followed by an item.
      | ']' :: _ => ([item], .stray, [])
      | rest =>
        let (items, ending, rest) := scanItems fuel rest
        (item :: items, ending, rest)
    | _ => ([item], .stray, [])

/-- Scans the fields of an object from the first character of a name on, which follows its
    opening quote. -/
def scanFields : Nat → List Char → List (Option String × Tree) × Ending × List Char
  | 0, _ => ([], .cut, [])
  | fuel + 1, cs => match scanQuoted cs with
    | .broken report => ([], .brokenName report, [])
    | .found name rest =>
      let name := name.map String.ofList
      match skipSpace rest with
      | [] => ([(name, .absent)], .cut, [])
      | ':' :: rest =>
        -- The value may be missing, as in a text that ends here; then the tree says so.
        let (value, rest) := scanValue fuel rest
        match skipSpace rest with
        | [] => ([(name, value)], .cut, [])
        | '\x7d' :: rest => ([(name, value)], .closed, rest)
        | ',' :: rest => match skipSpace rest with
          | [] => ([(name, value)], .cutAfterComma, [])
          | '"' :: rest =>
            let (fields, ending, rest) := scanFields fuel rest
            ((name, value) :: fields, ending, rest)
          | _ => ([(name, value)], .stray, [])
        | _ => ([(name, value)], .stray, [])
      | _ => ([(name, .broken .malformed)], .stray, [])
end

/-- A text laid out as a value and what follows it. -/
structure Document where
  tree : Tree
  rest : List Char

namespace Document

/-- Lays out a text. Two steps for each character are enough. -/
def ofText (text : String) : Document :=
  let cs := text.toList
  let (tree, rest) := scanValue (2 * cs.length + 2) cs
  ⟨tree, rest⟩

/-- Reads the value of a document and wants nothing but blanks after it. -/
def read {α : Type} (d : Document) (reader : Tree → Except Fault α) : Except Fault α := do
  let value ← reader d.tree
  if (skipSpace d.rest).isEmpty then return value else throw .malformed

end Document

/-- Reads a text as a value of any shape. -/
def ofText (text : String) : Except Fault Json :=
  (Document.ofText text).read (Tree.json maxNesting)

end MeshExpr.Json
