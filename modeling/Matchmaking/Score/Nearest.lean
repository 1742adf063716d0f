import Matchmaking.Score

/-!
# The nearest score

`Score.nearest` is the score closest to a quotient of natural numbers, a half
going to the even neighbour and everything past the largest score to infinity.
Products and quotients of scores are rounded the same way, once, from their
exact value.
-/

namespace Matchmaking

/-- The whole number nearest to `n / d`; a half goes to the even neighbour. -/
def roundHalfEven (n d : Nat) : Nat :=
  let q := n / d
  let twice := 2 * (n % d)
  if twice < d then q
  else if d < twice then q + 1
  else if q % 2 = 0 then q
  else q + 1

namespace Score

/-- The score nearest to `n / d` quanta.  Below `2 ^ 53` quanta every whole
number is a score; above, fifty-three leading bits are kept.  When the rounding
carries into one more bit, the sum moves to the next exponent by itself. -/
def nearestQuanta (negative : Bool) (n d : Nat) : Score :=
  let shift := (n / d).log2 - 52
  ofMagnitude negative (shift * 2 ^ 52 + roundHalfEven n (d * 2 ^ shift))

/-- The score nearest to the quotient `n / d`. -/
def nearest (negative : Bool) (n d : Nat) : Score :=
  nearestQuanta negative (n * quantaOfOne) d

/-- The score nearest to a natural number. -/
def ofNat (n : Nat) : Score := nearest false n 1

/-- The score nearest to `digits · 10 ^ exponent`.  Exponents that no score
reaches are answered without computing the power. -/
def ofDecimal (negative : Bool) (digits : Nat) (exponent : Int) : Score :=
  if digits = 0 then ofMagnitude negative 0
  else if 310 < exponent then ofMagnitude negative infiniteMagnitude
  else if exponent + digits.log2 < -330 then ofMagnitude negative 0
  else nearest negative (digits * 10 ^ exponent.toNat) (10 ^ (-exponent).toNat)

/-- The nearest score to the product of two finite magnitudes. -/
def mul (a b : Score) : Score := nearestQuanta false (a.quanta * b.quanta) quantaOfOne

/-- The nearest score to the quotient of two finite magnitudes. -/
def div (a b : Score) : Score := nearestQuanta false (a.quanta * quantaOfOne) b.quanta

example : (ofNat 1).bits = 0x3FF0000000000000 := by decide +kernel
example : (ofDecimal false 1 (-1)).bits = 0x3FB999999999999A := by decide +kernel
example : (ofDecimal false 5 (-324)).bits = 1 := by decide +kernel
example : ofDecimal false 2 (-324) = ofNat 0 := by decide +kernel
example : ofDecimal false 17976931348623157 292 = ⟨0x7FEFFFFFFFFFFFFF⟩ := by decide +kernel
example : ofDecimal false 18 307 = infinity := by decide +kernel

end Score

end Matchmaking
