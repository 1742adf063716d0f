import Matchmaking.Powers

/-!
# Scores

A queue is ordered by scores.  A score is a double-precision number, kept as its
64-bit word: a sign, eleven exponent bits and fifty-two fraction bits.

The finite magnitudes are whole numbers of one *quantum*, `2 ^ -1074`, the
smallest positive score.  `Score.quanta` is that number.  With it rounding,
reading and printing are arithmetic on natural numbers, and no machine
floating-point operation is used.

Scores are totally ordered: negative NaN, `-inf`, the negative numbers, `-0`,
`0`, the positive numbers, `inf`, positive NaN.  `Score.rank` numbers the words
in that order, and no two words share a rank.
-/

namespace Matchmaking

/-- A double-precision number, as its word. -/
structure Score where
  /-- The sign bit, the exponent bits and the fraction bits, from the top. -/
  bits : UInt64
deriving DecidableEq, Inhabited

namespace Score

/-! ## The fields of the word -/

/-- Whether the sign bit is set. -/
def isNegative (s : Score) : Bool := decide (2 ^ 63 ≤ s.bits.toNat)

/-- The word without its sign bit. -/
def magnitude (s : Score) : Nat := s.bits.toNat % 2 ^ 63

/-- The eleven exponent bits. -/
def exponentBits (s : Score) : Nat := s.magnitude / 2 ^ 52

/-- The fifty-two fraction bits. -/
def fractionBits (s : Score) : Nat := s.magnitude % 2 ^ 52

/-- The magnitude of the infinities. -/
def infiniteMagnitude : Nat := 2047 * 2 ^ 52

/-- Neither an infinity nor NaN. -/
def isFinite (s : Score) : Bool := decide (s.magnitude < infiniteMagnitude)

/-- An exponent of all ones with a fraction. -/
def isNaN (s : Score) : Bool := decide (infiniteMagnitude < s.magnitude)

/-- The whole number that the exponent scales. -/
def significand (s : Score) : Nat :=
  if s.exponentBits = 0 then s.fractionBits else 2 ^ 52 + s.fractionBits

/-- The power of two between neighbouring scores, in quanta. -/
def spacing (s : Score) : Nat := 2 ^ (s.exponentBits - 1)

/-- The size of a finite score in quanta of `2 ^ -1074`. -/
def quanta (s : Score) : Nat := s.significand * s.spacing

/-- The number of quanta in one. -/
def quantaOfOne : Nat := 2 ^ 1074

/-! ## Building scores -/

/-- The score of a sign and a magnitude; magnitudes past infinity give infinity. -/
def ofMagnitude (negative : Bool) (magnitude : Nat) : Score :=
  let m := min magnitude infiniteMagnitude
  ⟨UInt64.ofNat (if negative then 2 ^ 63 + m else m)⟩

/-- Positive infinity. -/
def infinity : Score := ofMagnitude false infiniteMagnitude

/-- Negative infinity. -/
def negInfinity : Score := ofMagnitude true infiniteMagnitude

/-- The positive NaN with only the first fraction bit. -/
def nan : Score := ⟨UInt64.ofNat (infiniteMagnitude + 2 ^ 51)⟩

/-- The same magnitude with the other sign. -/
def neg (s : Score) : Score := ⟨s.bits ^^^ 0x8000000000000000⟩

/-! ## The total order -/

/-- The place of a score in the order of all words. -/
def rank (s : Score) : Nat :=
  if s.bits.toNat < 2 ^ 63 then 2 ^ 63 + s.bits.toNat else 2 ^ 64 - 1 - s.bits.toNat

theorem rank_injective {a b : Score} (h : a.rank = b.rank) : a = b := by
  have ha := a.bits.toNat_lt
  have hb := b.bits.toNat_lt
  have : a.bits.toNat = b.bits.toNat := by
    unfold rank at h
    split at h <;> split at h <;> omega
  cases a
  cases b
  simpa [UInt64.toNat_inj] using this

instance : Ord Score := ⟨fun a b => compare a.rank b.rank⟩

theorem compare_eq (a b : Score) : compare a b = compare a.rank b.rank := rfl

instance : Std.TransOrd Score where
  eq_swap := fun {a b} => by
    simp only [compare_eq]
    exact Std.OrientedCmp.eq_swap
  isLE_trans := fun {a b c} => by
    simp only [compare_eq]
    exact Std.TransCmp.isLE_trans

instance : Std.LawfulEqOrd Score where
  eq_of_compare := fun {a b} h => by
    rw [compare_eq] at h
    exact rank_injective (Std.LawfulEqCmp.eq_of_compare h)

end Score

end Matchmaking
