import Matchmaking.Powers
import Matchmaking.Toml
import Matchmaking.Toml.Text

/-!
# TOML documents

A document is a sequence of lines: values given to names, headers in brackets,
comments and empty lines.  Behind the content of a line only blanks and a comment
may stand.  A mark for the order of bytes may stand in front of the document.

Whole numbers are decimal with an optional sign, or hexadecimal, octal or binary
without one, and fit 64 bits.  Underscores may stand between digits, and decimal
numbers have no leading zeros.  An array may go over several lines, hold comments
and end with a comma.  An inline table stands on one line and ends with no comma.

Reading gives nothing for every other text.  That includes texts with dates,
fractions, truth values and arrays of tables, which no configuration can use.
-/

namespace Matchmaking

namespace Toml

/-! ## Line ends and comments -/

/-- The text behind a comment, if one starts here. -/
def dropComment? : List Char → Option (List Char)
  | '#' :: cs => some (cs.dropWhile isPrintable)
  | cs => some cs

/-- The text behind the end of a line: blanks, a comment, and a line end or the
end of the document. -/
def endLine? (cs : List Char) : Option (List Char) := do
  let cs ← dropComment? (cs.dropWhile isBlank)
  if cs.isEmpty then some [] else dropLineEnd? cs

/-- The text behind blanks, comments and line ends. -/
def skipSpace : Nat → List Char → Option (List Char)
  | 0, _ => none
  | fuel + 1, cs =>
    match skipLines cs with
    | '#' :: rest => do
      let rest ← dropLineEnd? (rest.dropWhile isPrintable)
      skipSpace fuel rest
    | rest => some rest

/-! ## Whole numbers -/

/-- The number of digits in a base with underscores between them. -/
def readDigits (base : Nat) (soFar : Nat) : Bool → List Char → Option (Nat × List Char)
  | afterDigit, [] => if afterDigit then some (soFar, []) else none
  | afterDigit, '_' :: cs => if afterDigit then readDigits base soFar false cs else none
  | afterDigit, c :: cs =>
    match (hexValue? c).filter (· < base) with
    | some d => readDigits base (base * soFar + d) true cs
    | none => if afterDigit then some (soFar, c :: cs) else none

/-- A decimal number behind its sign. -/
def readDecimal : Reader Nat
  | '0' :: '_' :: _ => none
  | '0' :: c :: cs => if c.isDigit then none else some (0, c :: cs)
  | cs => readDigits 10 0 false cs

/-- A number that fits 64 bits with a sign. -/
def signed? (value : Int) : Option Int :=
  if -2 ^ 63 ≤ value ∧ value < 2 ^ 63 then some value else none

/-- A whole number. -/
def readInteger (cs : List Char) : Option (Int × List Char) := do
  let (value, rest) ← match cs with
    | '0' :: 'x' :: cs => (readDigits 16 0 false cs).map fun (n, cs) => ((n : Int), cs)
    | '0' :: 'o' :: cs => (readDigits 8 0 false cs).map fun (n, cs) => ((n : Int), cs)
    | '0' :: 'b' :: cs => (readDigits 2 0 false cs).map fun (n, cs) => ((n : Int), cs)
    | '-' :: cs => (readDecimal cs).map fun (n, cs) => (-(n : Int), cs)
    | '+' :: cs => (readDecimal cs).map fun (n, cs) => ((n : Int), cs)
    | cs => (readDecimal cs).map fun (n, cs) => ((n : Int), cs)
  pure (← signed? value, rest)

/-! ## Values -/

mutual

/-- A value. -/
def readValue : Nat → Reader Value
  | 0, _ => none
  | fuel + 1, cs =>
    match cs with
    | '[' :: cs => do
      let (items, cs) ← readItems fuel cs
      pure (.array items, cs)
    | '{' :: cs =>
      match cs.dropWhile isBlank with
      | '}' :: cs => some (.table [], cs)
      | cs => do
        let (table, cs) ← readEntries fuel [] cs
        pure (.table (Node.closeAll table), cs)
    | '"' :: _ => (readText cs).map fun (text, cs) => (.string text, cs)
    | '\x27' :: _ => (readText cs).map fun (text, cs) => (.string text, cs)
    | cs => (readInteger cs).map fun (value, cs) => (.integer value, cs)

/-- The items of an array up to its closing bracket. -/
def readItems : Nat → Reader (List Value)
  | 0, _ => none
  | fuel + 1, cs => do
    match ← skipSpace (cs.length + 1) cs with
    | ']' :: cs => some ([], cs)
    | cs => do
      let (item, cs) ← readValue fuel cs
      match ← skipSpace (cs.length + 1) cs with
      | ',' :: cs => do
        let (items, cs) ← readItems fuel cs
        pure (item :: items, cs)
      | ']' :: cs => pure ([item], cs)
      | _ => none

/-- The entries of an inline table up to its closing brace. -/
def readEntries : Nat → Table → Reader Table
  | 0, _, _ => none
  | fuel + 1, table, cs => do
    let (path, cs) ← readPath (cs.length + 1) cs
    match cs with
    | '=' :: cs => do
      let (value, cs) ← readValue fuel (cs.dropWhile isBlank)
      let table ← table.assign value path
      match cs.dropWhile isBlank with
      | ',' :: cs => readEntries fuel table cs
      | '}' :: cs => pure (table, cs)
      | _ => none
    | _ => none

end

/-! ## Documents -/

/-- A table and the path of the header that lines add to. -/
structure Builder where
  /-- The path of the last header. -/
  header : List String
  /-- The table so far. -/
  table : Table

/-- A header behind its bracket. -/
def readHeader (d : Builder) (cs : List Char) : Option (Builder × List Char) := do
  let (path, cs) ← readPath (cs.length + 1) cs
  match cs with
  | ']' :: cs => pure (⟨path, ← d.table.openHeader path⟩, cs)
  | _ => none

/-- A name and its value. -/
def readAssignment (d : Builder) (cs : List Char) : Option (Builder × List Char) := do
  let (path, cs) ← readPath (cs.length + 1) cs
  match cs with
  | '=' :: cs => do
    let cs := cs.dropWhile isBlank
    let (value, cs) ← readValue (2 * cs.length + 2) cs
    pure ({ d with table := ← Table.assignIn value path d.header d.table }, cs)
  | _ => none

/-- The content of a line in front of its end. -/
def readLine (d : Builder) : List Char → Option (Builder × List Char)
  | [] => some (d, [])
  | '#' :: cs => some (d, '#' :: cs)
  | '\n' :: cs => some (d, '\n' :: cs)
  | '\r' :: cs => some (d, '\r' :: cs)
  | '[' :: cs => readHeader d cs
  | cs => readAssignment d cs

/-- All lines of a document. -/
def readLines : Nat → Builder → List Char → Option Table
  | 0, _, _ => none
  | _ + 1, d, [] => some d.table
  | fuel + 1, d, cs => do
    let (d, cs) ← readLine d (cs.dropWhile isBlank)
    readLines fuel d (← endLine? cs)

/-- The text without a mark for the order of bytes in front. -/
def dropByteOrderMark : List Char → List Char
  | '\uFEFF' :: cs => cs
  | cs => cs

/-- The entries of a document. -/
def parse (document : String) : Option (List (String × Value)) :=
  let cs := dropByteOrderMark document.toList
  (readLines (cs.length + 1) ⟨[], []⟩ cs).map Node.closeAll

end Toml

end Matchmaking
