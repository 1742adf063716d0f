import Matchmaking.Score.Shortest

/-!
# Reading scores

Stored texts and typed-in scores are read by different rules.

A *stored numeral* is read through a 64-bit significand.  Digits go into it as
long as they fit.  A whole digit that does not fit is dropped, with the whole
digits behind it, and each counts as a power of ten.  From the first fraction
digit that does not fit on, the fraction is dropped.  The significand is rounded
to a score and then multiplied or divided by one rounded power of ten, so two
roundings can follow each other and the result can miss the nearest score by a
unit.  A value past the largest score is refused.

A *decimal text* is rounded once, to the nearest score, and may overflow to
infinity.
-/

namespace Matchmaking

namespace Score

/-! ## Stored numerals -/

/-- The numbers a 64-bit word holds are below this. -/
def wordLimit : Nat := 2 ^ 64

/-- Appends digits to a significand as long as it fits a word; the second
component counts the digits left over. -/
def fill (significand : Nat) : List Digit → Nat × Nat
  | [] => (significand, 0)
  | d :: ds =>
    let next := 10 * significand + d.val
    if next < wordLimit then fill next ds else (significand, ds.length + 1)

/-- A power of ten, rounded. -/
def powerOfTen (exponent : Nat) : Score := nearest false (10 ^ exponent) 1

/-- A rounded significand scaled by a power of ten.  Above `10 ^ 308` only zero
can be scaled.  Below `10 ^ -308` the division happens in two steps, and below
`10 ^ -616` nothing is left. -/
def scaled (significand : Nat) (exponent : Int) : Option Score :=
  let s := ofNat significand
  if significand = 0 then some s
  else if 308 < exponent then none
  else if 0 ≤ exponent then
    let product := s.mul (powerOfTen exponent.toNat)
    if product.isFinite then some product else none
  else if -308 ≤ exponent then some (s.div (powerOfTen (-exponent).toNat))
  else if -616 ≤ exponent then
    some ((s.div (powerOfTen 308)).div (powerOfTen (-exponent - 308).toNat))
  else some (ofNat 0)

/-- The score a stored numeral stands for; none if it is out of range. -/
def ofNumeral (n : Numeral) : Option Score := do
  let (significand, dropped) := fill 0 (Digit.ofNat n.whole)
  let (significand, unread) := fill significand n.fraction
  let places := n.fraction.length - unread
  let exponent := (dropped : Int) - places + n.exponent.getD 0
  let s ← scaled significand exponent
  pure (if n.negative then s.neg else s)

/-! ## Decimal texts -/

/-- A sign in front of a text; a plus sign may be left out. -/
def splitSign : List Char → Bool × List Char
  | '-' :: cs => (true, cs)
  | '+' :: cs => (false, cs)
  | cs => (false, cs)

/-- The digits behind a point, if one comes next. -/
def splitFraction : List Char → List Digit × List Char
  | '.' :: cs => Digit.run cs
  | cs => ([], cs)

/-- The score nearest to an unsigned decimal text. -/
def ofUnsigned? (negative : Bool) (cs : List Char) : Option Score := do
  let (whole, cs) := Digit.run cs
  let (fraction, cs) := splitFraction cs
  if whole.isEmpty && fraction.isEmpty then none
  let (exponent, cs) ← Numeral.readExponent cs
  if cs.isEmpty then
    pure (ofDecimal negative (Digit.value (whole ++ fraction))
      (exponent.getD 0 - fraction.length))
  else none

/-- Reads a decimal text, `inf` or `NaN`, with an optional sign. -/
def ofText? (text : String) : Option Score :=
  let (negative, cs) := splitSign text.toList
  match cs.map Char.toLower with
  | ['n', 'a', 'n'] => some (if negative then nan.neg else nan)
  | ['i', 'n', 'f'] => some (if negative then negInfinity else infinity)
  | ['i', 'n', 'f', 'i', 'n', 'i', 't', 'y'] => some (if negative then negInfinity else infinity)
  | _ => ofUnsigned? negative cs

example : ofText? "1e400" = some infinity := by decide +kernel
example : ofText? "-0" = some (ofDecimal true 0 0) := by decide +kernel
example : ofText? "+7" = some (ofNat 7) := by decide +kernel

end Score

end Matchmaking
