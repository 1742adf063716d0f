import Matchmaking.Digit

/-!
# Numerals

A JSON numeral is a sign, a whole part, an optional fraction and an optional
power of ten.  A whole part has no leading zeros, so a natural number stands for
it.  A fraction is its digits, none meaning that there is no fraction.  The
reader forgets how an exponent was spelled (`E`, a plus sign, leading zeros).
The printer marks the sign of every exponent.

`Numeral.read` takes the longest numeral at the front of a text.
-/

namespace Matchmaking

/-- A JSON number, as written. -/
structure Numeral where
  /-- Whether a minus sign stands in front. -/
  negative : Bool
  /-- The part before the point. -/
  whole : Nat
  /-- The digits behind the point. -/
  fraction : List Digit
  /-- The power of ten, if one is written. -/
  exponent : Option Int
deriving DecidableEq

namespace Numeral

/-- The numeral of a natural number. -/
def ofNat (n : Nat) : Numeral := ⟨false, n, [], none⟩

/-- Neither a fraction nor an exponent is written. -/
def isPlain (n : Numeral) : Bool := n.fraction.isEmpty && n.exponent.isNone

/-- The natural number a plain unsigned numeral writes. -/
def natural? (n : Numeral) : Option Nat :=
  if n.isPlain && !n.negative then some n.whole else none

/-! ## Printing -/

/-- The digits of a natural number as text. -/
def natChars (n : Nat) : List Char := (Digit.ofNat n).map Digit.toChar

/-- A point and the fraction, if there is one. -/
def fractionChars : List Digit → List Char
  | [] => []
  | ds => '.' :: ds.map Digit.toChar

/-- The power of ten with its sign, if there is one. -/
def exponentChars : Option Int → List Char
  | none => []
  | some (.ofNat e) => 'e' :: '+' :: natChars e
  | some (.negSucc e) => 'e' :: '-' :: natChars (e + 1)

/-- The written form of a numeral. -/
def chars (n : Numeral) : List Char :=
  (if n.negative then ['-'] else []) ++ natChars n.whole ++ fractionChars n.fraction
    ++ exponentChars n.exponent

/-! ## Reading -/

/-- A whole part: a lone zero, or digits that start with none. -/
def readWhole (cs : List Char) : Option (Nat × List Char) :=
  match Digit.run cs with
  | ([], _) => none
  | ([d], rest) => some (d.val, rest)
  | (d :: ds, rest) => if d = 0 then none else some (Digit.value (d :: ds), rest)

/-- A point with at least one digit behind it, or nothing. -/
def readFraction : List Char → Option (List Digit × List Char)
  | '.' :: cs =>
    match Digit.run cs with
    | ([], _) => none
    | (ds, rest) => some (ds, rest)
  | cs => some ([], cs)

/-- The sign of an exponent; a plus sign may be left out. -/
def readSign : List Char → Bool × List Char
  | '+' :: cs => (false, cs)
  | '-' :: cs => (true, cs)
  | cs => (false, cs)

/-- An exponent behind its letter. -/
def readPower (cs : List Char) : Option (Option Int × List Char) :=
  let (negative, cs) := readSign cs
  match Digit.run cs with
  | ([], _) => none
  | (ds, rest) =>
    let e : Int := Digit.value ds
    some (some (if negative then -e else e), rest)

/-- An exponent, or nothing. -/
def readExponent : List Char → Option (Option Int × List Char)
  | 'e' :: cs => readPower cs
  | 'E' :: cs => readPower cs
  | cs => some (none, cs)

/-- A numeral behind its sign. -/
def readUnsigned (negative : Bool) (cs : List Char) : Option (Numeral × List Char) := do
  let (whole, cs) ← readWhole cs
  let (fraction, cs) ← readFraction cs
  let (exponent, cs) ← readExponent cs
  pure (⟨negative, whole, fraction, exponent⟩, cs)

/-- The numeral at the front of a text, and the rest. -/
def read : List Char → Option (Numeral × List Char)
  | '-' :: cs => readUnsigned true cs
  | cs => readUnsigned false cs

example : read "-12.50e-007,".toList = some (⟨true, 12, [5, 0], some (-7)⟩, [',']) := by
  decide +kernel
example : read "01".toList = none := by decide +kernel
example : chars ⟨false, 1, [5], some 16⟩ = "1.5e+16".toList := by decide +kernel

end Numeral

end Matchmaking
