import Matchmaking.Json

/-!
# Reading JSON

`Json.parse` reads one value with blanks around it and nothing behind it.
Blanks are spaces, tabs, line feeds and carriage returns.  Control characters
may not stand in a string, and no comma may stand before a closing bracket.

Every reader takes a text and gives a value with the rest of the text, or
nothing.  Nesting is bounded by fuel.  No two calls in a chain stand at the same
character but the pair that opens a bracket, so two units of fuel for each
character are enough.
-/

namespace Matchmaking

namespace Json

/-- A character that may stand between tokens. -/
def isBlank (c : Char) : Bool := c = ' ' || c = '\t' || c = '\n' || c = '\r'

/-! ## Strings -/

/-- A part of a string literal: a character, or a 16-bit unit named by an
escape. -/
inductive Piece where
  /-- A character that stands for itself or has a short escape. -/
  | char (c : Char)
  /-- A unit of UTF-16. -/
  | unit (value : Nat)

/-- The unit that four hexadecimal digits write. -/
def hexUnit? (a b c d : Char) : Option Nat := do
  let a ← hexValue? a
  let b ← hexValue? b
  let c ← hexValue? c
  let d ← hexValue? d
  pure (((a * 16 + b) * 16 + c) * 16 + d)

/-- The character of a short escape. -/
def unescape? : Char → Option Char
  | '"' => some '"'
  | '\\' => some '\\'
  | '/' => some '/'
  | 'b' => some '\x08'
  | 'f' => some '\x0c'
  | 'n' => some '\n'
  | 'r' => some '\r'
  | 't' => some '\t'
  | _ => none

/-- The parts of a string up to its closing quote, in front of `done`, and the
rest. -/
def readPieces (done : List Piece) : List Char → Option (List Piece × List Char)
  | [] => none
  | '"' :: cs => some (done.reverse, cs)
  | '\\' :: 'u' :: a :: b :: c :: d :: cs =>
    match hexUnit? a b c d with
    | some u => readPieces (.unit u :: done) cs
    | none => none
  | '\\' :: e :: cs =>
    match unescape? e with
    | some c => readPieces (.char c :: done) cs
    | none => none
  | c :: cs => if c.toNat < 32 ∨ c = '\\' then none else readPieces (.char c :: done) cs

/-- The first half of a character outside the basic plane. -/
def isHighHalf (u : Nat) : Bool := decide (0xD800 ≤ u) && decide (u < 0xDC00)

/-- The second half of such a character. -/
def isLowHalf (u : Nat) : Bool := decide (0xDC00 ≤ u) && decide (u < 0xE000)

/-- The character of two halves. -/
def joinHalves (high low : Nat) : Char :=
  Char.ofNat (0x10000 + (high - 0xD800) * 0x400 + (low - 0xDC00))

/-- The characters that the parts stand for; none if a half stands alone. -/
def content? : List Piece → Option (List Char)
  | [] => some []
  | .char c :: ps => (content? ps).map (c :: ·)
  | .unit u :: ps =>
    if isHighHalf u then
      match ps with
      | .unit l :: ps => if isLowHalf l then (content? ps).map (joinHalves u l :: ·) else none
      | _ => none
    else if isLowHalf u then none
    else (content? ps).map (Char.ofNat u :: ·)

/-- The content of a string behind its opening quote. -/
def readString (cs : List Char) : Option (Option String × List Char) := do
  let (pieces, cs) ← readPieces [] cs
  pure ((content? pieces).map String.ofList, cs)

/-! ## Values -/

mutual

/-- The value at the front of a text. -/
def readValue : Nat → List Char → Option (Json × List Char)
  | 0, _ => none
  | fuel + 1, cs =>
    match cs.dropWhile isBlank with
    | 'n' :: 'u' :: 'l' :: 'l' :: cs => some (.null, cs)
    | 't' :: 'r' :: 'u' :: 'e' :: cs => some (.bool true, cs)
    | 'f' :: 'a' :: 'l' :: 's' :: 'e' :: cs => some (.bool false, cs)
    | '"' :: cs => do
      let (content, cs) ← readString cs
      pure (.string content, cs)
    | '[' :: cs => do
      let (items, cs) ← readItems fuel cs
      pure (.array items, cs)
    | '{' :: cs => do
      let (members, cs) ← readMembers fuel cs
      pure (.object members, cs)
    | cs => do
      let (n, cs) ← Numeral.read cs
      pure (.number n, cs)

/-- The items of an array behind its bracket. -/
def readItems : Nat → List Char → Option (List Json × List Char)
  | 0, _ => none
  | fuel + 1, cs =>
    match cs.dropWhile isBlank with
    | ']' :: cs => some ([], cs)
    | cs => do
      let (item, cs) ← readValue fuel cs
      let (items, cs) ← readMoreItems fuel cs
      pure (item :: items, cs)

/-- The items behind the first one. -/
def readMoreItems : Nat → List Char → Option (List Json × List Char)
  | 0, _ => none
  | fuel + 1, cs =>
    match cs.dropWhile isBlank with
    | ']' :: cs => some ([], cs)
    | ',' :: cs => do
      let (item, cs) ← readValue fuel cs
      let (items, cs) ← readMoreItems fuel cs
      pure (item :: items, cs)
    | _ => none

/-- The members of an object behind its brace. -/
def readMembers : Nat → List Char → Option (List (Option String × Json) × List Char)
  | 0, _ => none
  | fuel + 1, cs =>
    match cs.dropWhile isBlank with
    | '}' :: cs => some ([], cs)
    | cs => do
      let (member, cs) ← readMember fuel cs
      let (members, cs) ← readMoreMembers fuel cs
      pure (member :: members, cs)

/-- The members behind the first one. -/
def readMoreMembers : Nat → List Char → Option (List (Option String × Json) × List Char)
  | 0, _ => none
  | fuel + 1, cs =>
    match cs.dropWhile isBlank with
    | '}' :: cs => some ([], cs)
    | ',' :: cs => do
      let (member, cs) ← readMember fuel cs
      let (members, cs) ← readMoreMembers fuel cs
      pure (member :: members, cs)
    | _ => none

/-- A name, a colon and a value. -/
def readMember : Nat → List Char → Option ((Option String × Json) × List Char)
  | 0, _ => none
  | fuel + 1, cs =>
    match cs.dropWhile isBlank with
    | '"' :: cs => do
      let (name, cs) ← readString cs
      match cs.dropWhile isBlank with
      | ':' :: cs => do
        let (value, cs) ← readValue fuel cs
        pure ((name, value), cs)
      | _ => none
    | _ => none

end

/-- The one value a text holds. -/
def parse (s : String) : Option Json :=
  let cs := s.toList
  match readValue (2 * cs.length + 2) cs with
  | some (value, rest) => if (rest.dropWhile isBlank).isEmpty then some value else none
  | none => none

end Json

end Matchmaking
