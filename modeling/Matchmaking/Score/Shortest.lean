import Matchmaking.Json.Numeral
import Matchmaking.Score.Nearest

/-!
# The shortest decimal of a score

The *interval* of a finite score is the set of numbers that round to it: half a
spacing to either side, half as much below a power of two, the ends included
exactly if the significand is even.  A grid of multiples of a power of ten that
misses the interval is coarser than one that hits it.  So going through the
powers downwards, the first grid with a point in the interval gives the fewest
digits.  If a grid has such a point, one of the two neighbours of the score on
the grid is one.  Of two, the nearer is taken, and of two equally near the even
one.

The written form puts a point into the digits from `0.00001` up to sixteen whole
digits, always with a digit behind the point, and writes a power of ten
otherwise.
-/

namespace Matchmaking

/-- A number `digits · 10 ^ exponent`. -/
structure Decimal where
  /-- The digits as one number. -/
  digits : Nat
  /-- The power of ten that scales them. -/
  exponent : Int
deriving DecidableEq

namespace Score

/-! ## The interval of a score -/

/-- The lower end of the interval, in quarter quanta. -/
def intervalLow (s : Score) : Nat :=
  if s.fractionBits = 0 && decide (1 < s.exponentBits) then 4 * s.quanta - s.spacing
  else 4 * s.quanta - 2 * s.spacing

/-- The upper end of the interval, in quarter quanta. -/
def intervalHigh (s : Score) : Nat := 4 * s.quanta + 2 * s.spacing

/-- Whether `n / d` quarter quanta round to the score. -/
def intervalHolds (s : Score) (n d : Nat) : Bool :=
  if s.significand % 2 = 0 then
    decide (s.intervalLow * d ≤ n) && decide (n ≤ s.intervalHigh * d)
  else
    decide (s.intervalLow * d < n) && decide (n < s.intervalHigh * d)

/-! ## The search -/

/-- The grid point that stands for the score on the grid of `10 ^ exponent`: the
nearer of the two neighbours that lie in the interval. -/
def gridPoint (s : Score) (exponent : Int) : Option Nat :=
  let step := 4 * quantaOfOne * 10 ^ exponent.toNat
  let scale := 10 ^ (-exponent).toNat
  let at4 := 4 * s.quanta * scale
  let below := at4 / step
  let above := below + 1
  let belowHolds := decide (0 < below) && s.intervalHolds (below * step) scale
  let aboveHolds := s.intervalHolds (above * step) scale
  if belowHolds && aboveHolds then
    some (roundHalfEven at4 step)
  else if belowHolds then some below
  else if aboveHolds then some above
  else none

/-- The first grid point found on the grids from `exponent` downwards. -/
def firstGridPoint (s : Score) : Nat → Int → Option Decimal
  | 0, _ => none
  | tries + 1, exponent =>
    match s.gridPoint exponent with
    | some digits => some ⟨digits, exponent⟩
    | none => s.firstGridPoint tries (exponent - 1)

/-- A power of ten above the interval. -/
def topExponent (s : Score) : Int :=
  (((s.quanta.log2 : Int) - 1073) * 30103) / 100000 + 2

/-- The shortest decimal that rounds to the score.  Seventeen digits always hit
the interval, so twenty-four grids below the top are enough.  The exact value
stands in for the answer the search cannot fail to give. -/
def shortest (s : Score) : Decimal :=
  (s.firstGridPoint 24 s.topExponent).getD ⟨s.quanta * 5 ^ 1074, -1074⟩

/-! ## The written form -/

/-- The numeral of nonzero digits `ds` that stand for `0.ds · 10 ^ point`. -/
def layout (negative : Bool) (ds : List Digit) (point : Int) : Numeral :=
  if 16 < point ∨ point < -4 then
    ⟨negative, Digit.value (ds.take 1), ds.drop 1, some (point - 1)⟩
  else if point ≤ 0 then
    ⟨negative, 0, List.replicate (-point).toNat 0 ++ ds, none⟩
  else
    let places := point.toNat
    let whole := Digit.value (ds.take places) * 10 ^ (places - ds.length)
    let fraction := ds.drop places
    ⟨negative, whole, if fraction.isEmpty then [0] else fraction, none⟩

/-- The shortest numeral of a score; infinities and NaN have none. -/
def numeral? (s : Score) : Option Numeral :=
  if !s.isFinite then none
  else if s.quanta = 0 then some ⟨s.isNegative, 0, [0], none⟩
  else
    let d := s.shortest
    let ds := Digit.ofNat d.digits
    some (layout s.isNegative ds (ds.length + d.exponent))

/-- The text of a score. -/
def text (s : Score) : String :=
  match s.numeral? with
  | some n => String.ofList n.chars
  | none => if s.isNaN then "NaN" else if s.isNegative then "-inf" else "inf"

example : (ofNat 1).text = "1.0" := by decide +kernel
example : (ofDecimal true 0 0).text = "-0.0" := by decide +kernel
example : (ofDecimal false 1 (-1)).text = "0.1" := by decide +kernel
example : (ofDecimal false 1 (-5)).text = "0.00001" := by decide +kernel
example : (ofDecimal false 1 (-6)).text = "1e-6" := by decide +kernel
example : (ofDecimal false 1 15).text = "1000000000000000.0" := by decide +kernel
example : (ofDecimal false 1 16).text = "1e+16" := by decide +kernel
example : (ofDecimal false 112589990684262425 (-2)).text = "1125899906842624.2" := by decide +kernel
example : (⟨1⟩ : Score).text = "5e-324" := by decide +kernel
example : (⟨0x7FEFFFFFFFFFFFFF⟩ : Score).text = "1.7976931348623157e+308" := by decide +kernel

end Score

end Matchmaking
