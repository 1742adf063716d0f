import Matchmaking.Digit

/-!
# Texts and names of TOML

A text is written in one of four ways: on one line or on several, with escapes
or literally.  Tabs may stand in every text, other control characters in none,
and line ends only in texts of several lines, where each becomes a line feed.
A line end directly behind the opening quotes is dropped.  A backslash at the
end of a line drops the line end with the blanks and line ends behind it.

A name is a bare word, or a text on one line.
-/

namespace Matchmaking

namespace Toml

/-- A reader takes a text and gives what it read with the rest. -/
abbrev Reader (α : Type) := List Char → Option (α × List Char)

/-! ## Characters -/

/-- A blank within a line. -/
def isBlank (c : Char) : Bool := c = ' ' || c = '\t'

/-- A character that may stand in texts and comments. -/
def isPrintable (c : Char) : Bool := c = '\t' || (decide (32 ≤ c.toNat) && decide (c.toNat ≠ 127))

/-- The text behind one line end, if it starts with one. -/
def dropLineEnd? : List Char → Option (List Char)
  | '\n' :: cs => some cs
  | '\r' :: '\n' :: cs => some cs
  | _ => none

/-- The text behind blanks and line ends. -/
def skipLines : List Char → List Char
  | '\n' :: cs => skipLines cs
  | '\r' :: '\n' :: cs => skipLines cs
  | ' ' :: cs => skipLines cs
  | '\t' :: cs => skipLines cs
  | cs => cs

/-! ## Escapes -/

/-- The character that hexadecimal digits name. -/
def hexChar? (digits : List Char) : Option Char := do
  let values ← digits.mapM hexValue?
  let code := values.foldl (fun n v => 16 * n + v) 0
  if code.isValidChar then some (Char.ofNat code) else none

/-- The character that an escape names behind its backslash. -/
def readEscape : Reader Char
  | 'b' :: cs => some ('\x08', cs)
  | 't' :: cs => some ('\t', cs)
  | 'n' :: cs => some ('\n', cs)
  | 'f' :: cs => some ('\x0c', cs)
  | 'r' :: cs => some ('\r', cs)
  | '"' :: cs => some ('"', cs)
  | '\\' :: cs => some ('\\', cs)
  | 'u' :: cs =>
    if (cs.take 4).length = 4 then (hexChar? (cs.take 4)).map (·, cs.drop 4) else none
  | 'U' :: cs =>
    if (cs.take 8).length = 8 then (hexChar? (cs.take 8)).map (·, cs.drop 8) else none
  | _ => none

/-! ## Texts -/

/-- A text with escapes on one line, behind its quote. -/
def readBasic : Nat → Reader (List Char)
  | 0, _ => none
  | _ + 1, '"' :: cs => some ([], cs)
  | fuel + 1, '\\' :: cs => do
    let (c, cs) ← readEscape cs
    let (text, cs) ← readBasic fuel cs
    pure (c :: text, cs)
  | fuel + 1, c :: cs =>
    if isPrintable c then do
      let (text, cs) ← readBasic fuel cs
      pure (c :: text, cs)
    else none
  | _, [] => none

/-- A literal text on one line, behind its quote. -/
def readLiteral : Reader (List Char)
  | [] => none
  | '\x27' :: cs => some ([], cs)
  | c :: cs =>
    if isPrintable c then do
      let (text, cs) ← readLiteral cs
      pure (c :: text, cs)
    else none

/-- A text with escapes on several lines.  Up to two quotes may stand directly in
front of the closing ones. -/
def readLongBasic : Nat → Reader (List Char)
  | 0, _ => none
  | _ + 1, '"' :: '"' :: '"' :: '"' :: '"' :: cs => some (['"', '"'], cs)
  | _ + 1, '"' :: '"' :: '"' :: '"' :: cs => some (['"'], cs)
  | _ + 1, '"' :: '"' :: '"' :: cs => some ([], cs)
  | fuel + 1, '\\' :: cs =>
    match dropLineEnd? (cs.dropWhile isBlank) with
    | some cs => readLongBasic fuel (skipLines cs)
    | none => do
      let (c, cs) ← readEscape cs
      let (text, cs) ← readLongBasic fuel cs
      pure (c :: text, cs)
  | fuel + 1, c :: cs =>
    match dropLineEnd? (c :: cs) with
    | some cs => do
      let (text, cs) ← readLongBasic fuel cs
      pure ('\n' :: text, cs)
    | none =>
      if isPrintable c then do
        let (text, cs) ← readLongBasic fuel cs
        pure (c :: text, cs)
      else none
  | _, [] => none

/-- A literal text on several lines. -/
def readLongLiteral : Nat → Reader (List Char)
  | 0, _ => none
  | _ + 1, '\x27' :: '\x27' :: '\x27' :: '\x27' :: '\x27' :: cs => some (['\x27', '\x27'], cs)
  | _ + 1, '\x27' :: '\x27' :: '\x27' :: '\x27' :: cs => some (['\x27'], cs)
  | _ + 1, '\x27' :: '\x27' :: '\x27' :: cs => some ([], cs)
  | fuel + 1, c :: cs =>
    match dropLineEnd? (c :: cs) with
    | some cs => do
      let (text, cs) ← readLongLiteral fuel cs
      pure ('\n' :: text, cs)
    | none =>
      if isPrintable c then do
        let (text, cs) ← readLongLiteral fuel cs
        pure (c :: text, cs)
      else none
  | _, [] => none

/-- The text without a line end in front. -/
def dropFirstLineEnd (cs : List Char) : List Char := (dropLineEnd? cs).getD cs

/-- A text in any of its forms, from its quotes on. -/
def readText (cs : List Char) : Option (String × List Char) := do
  let (text, rest) ← match cs with
    | '"' :: '"' :: '"' :: cs => readLongBasic (cs.length + 1) (dropFirstLineEnd cs)
    | '"' :: cs => readBasic (cs.length + 1) cs
    | '\x27' :: '\x27' :: '\x27' :: cs => readLongLiteral (cs.length + 1) (dropFirstLineEnd cs)
    | '\x27' :: cs => readLiteral cs
    | _ => none
  pure (String.ofList text, rest)

/-! ## Names -/

/-- A character of a bare word. -/
def isBare (c : Char) : Bool := c.isAlphanum || c = '_' || c = '-'

/-- One name. -/
def readName : Reader String
  | '"' :: cs => do
    let (name, cs) ← readBasic (cs.length + 1) cs
    pure (String.ofList name, cs)
  | '\x27' :: cs => do
    let (name, cs) ← readLiteral cs
    pure (String.ofList name, cs)
  | cs =>
    let word := cs.takeWhile isBare
    if word.isEmpty then none else some (String.ofList word, cs.dropWhile isBare)

/-- Names with dots between them, and blanks around each. -/
def readPath : Nat → Reader (List String)
  | 0, _ => none
  | fuel + 1, cs => do
    let (name, cs) ← readName (cs.dropWhile isBlank)
    match cs.dropWhile isBlank with
    | '.' :: cs => do
      let (path, cs) ← readPath fuel cs
      pure (name :: path, cs)
    | cs => pure ([name], cs)

end Toml

end Matchmaking
