import Matchmaking.Proofs.CanonicalOrder
import Matchmaking.Proofs.WholeScores

/-!
# Finite scores are read

The stored form of a finite score is in the range of the reader, so a score is read,
if not always the same one (`Score.reread_isSome_of_isFinite`).  Infinities and NaN are
stored as `null`, which is not read as a score (`Score.reread_eq_none_iff`).

Only a significand that is scaled up can leave the range.  The reader rounds three
times on the way: the significand, the power of ten and their product.  A rounding adds
at most one part of `2 ^ 53` (`Score.quanta_nearestQuanta_le`), which is half a spacing
or one at the end of the range.  The decimal itself does not exceed the interval of the
score (`Score.shortest_le`).  So the product is finite if the interval leaves room for
what is added (`Score.isFinite_mul_powerOfTen`).  That is so for all but the two largest
scores of either sign, and these are read one by one.
-/

namespace Matchmaking

variable {n d : Nat}

/-! ## Rounding quotients -/

/-- Rounding goes to the whole number below or above. -/
theorem roundHalfEven_cases (n d : Nat) :
    roundHalfEven n d = n / d ∨ roundHalfEven n d = n / d + 1 := by
  unfold roundHalfEven
  dsimp only
  split
  next => exact .inl rfl
  next =>
    split
    next => exact .inr rfl
    next =>
      split
      next => exact .inl rfl
      next => exact .inr rfl

/-- Rounding adds at most a half. -/
theorem roundHalfEven_le (pos : 0 < d) : 2 * (roundHalfEven n d * d) ≤ 2 * n + d := by
  have parts : n / d * d + n % d = n := by
    rw [Nat.mul_comm]
    exact Nat.div_add_mod n d
  have up : (n / d + 1) * d = n / d * d + d := Nat.succ_mul _ _
  unfold roundHalfEven
  dsimp only
  split
  next => omega
  next =>
    split
    next => omega
    next => split <;> omega

theorem roundHalfEven_le_of_lt {k : Nat} (pos : 0 < d) (short : 2 * n < (2 * k + 1) * d) :
    roundHalfEven n d ≤ k := by
  have near := roundHalfEven_le (n := n) pos
  refine Nat.le_of_not_lt fun above => ?_
  have more := Nat.mul_le_mul_right d (Nat.succ_le_of_lt above)
  have form : (2 * k + 1) * d = 2 * (k * d) + d := by ring
  rw [Nat.succ_mul] at more
  omega

theorem le_roundHalfEven {k : Nat} (pos : 0 < d) (large : k * d ≤ n) : k ≤ roundHalfEven n d := by
  have least : k ≤ n / d := (Nat.le_div_iff_mul_le pos).2 large
  rcases roundHalfEven_cases n d with same | same <;> omega

/-! ## Digits -/

theorem Digit.foldl_lt (m : Nat) (ds : List Digit) :
    ds.foldl (fun n d => 10 * n + d.val) m < (m + 1) * 10 ^ ds.length := by
  induction ds generalizing m with
  | nil => exact Nat.lt_of_lt_of_eq (Nat.lt_succ_self m) (Nat.mul_one _).symm
  | cons d ds ih =>
    have digit := d.isLt
    rw [List.foldl_cons, List.length_cons, Nat.pow_succ', ← Nat.mul_assoc]
    exact Nat.lt_of_lt_of_le (ih _) (Nat.mul_le_mul_right _ (by omega))

theorem Digit.value_lt (ds : List Digit) : value ds < 10 ^ ds.length := by
  have := Digit.foldl_lt 0 ds
  rwa [Nat.one_mul] at this

namespace Score

theorem magnitude_ofMagnitude (negative : Bool) {m : Nat} (top : m ≤ infiniteMagnitude) :
    (ofMagnitude negative m).magnitude = m := by
  have small : infiniteMagnitude < 2 ^ 63 := by decide
  unfold ofMagnitude magnitude
  dsimp only
  rw [Nat.min_eq_left top, UInt64.toNat_ofNat']
  split <;> omega

/-- A significand of up to fifty-three bits is shifted by the exponent. -/
theorem quanta_ofMagnitude {shift r : Nat} (low : 2 ^ 52 ≤ r) (high : r ≤ 2 ^ 53)
    (top : shift ≤ 2045) : (ofMagnitude false (shift * 2 ^ 52 + r)).quanta = r * 2 ^ shift := by
  have word : (ofMagnitude false (shift * 2 ^ 52 + r)).magnitude = shift * 2 ^ 52 + r :=
    magnitude_ofMagnitude false (by unfold infiniteMagnitude; omega)
  rcases Nat.lt_or_eq_of_le high with below | carried
  · have exponent : (ofMagnitude false (shift * 2 ^ 52 + r)).exponentBits = shift + 1 := by
      rw [exponentBits, word]
      omega
    rw [quanta, significand, spacing, exponent, if_neg (Nat.succ_ne_zero _), fractionBits, word,
      Nat.add_sub_cancel]
    congr 1
    omega
  · -- The carry is in the exponent, and no fraction is left.
    have exponent : (ofMagnitude false (shift * 2 ^ 52 + r)).exponentBits = shift + 2 := by
      rw [exponentBits, word]
      omega
    have fraction : 2 ^ 52 + (ofMagnitude false (shift * 2 ^ 52 + r)).fractionBits = 2 ^ 52 := by
      rw [fractionBits, word]
      omega
    rw [quanta, significand, spacing, exponent, if_neg (Nat.succ_ne_zero _), fraction, carried]
    show 2 ^ 52 * 2 ^ (shift + 1) = 2 ^ 53 * 2 ^ shift
    ring

/-! ## The end of the range -/

/-- The spacing of the largest scores. -/
def topSpacing : Nat := 2 ^ 2045

theorem topSpacing_eq {j k : Nat} (sum : j + k = 2045) : topSpacing = 2 ^ j * 2 ^ k := by
  rw [← Nat.pow_add, sum, topSpacing]

theorem topSpacing_eq_pow {k : Nat} (same : k = 2045) : topSpacing = 2 ^ k := by
  rw [topSpacing_eq ((Nat.zero_add k).trans same), Nat.pow_zero, Nat.one_mul]

theorem topSpacing_eq_quanta {k : Nat} (sum : k + 1074 = 2045) :
    topSpacing = 2 ^ k * quantaOfOne := by
  rw [topSpacing_eq sum, quantaOfOne]

theorem topSpacing_pos : 0 < topSpacing := by
  obtain ⟨k, same⟩ : ∃ k, k = 2045 := ⟨_, rfl⟩
  rw [topSpacing_eq_pow same]
  exact Nat.two_pow_pos k

/-- Exact values up to here are not rounded to infinity, in quarter quanta.  It lies two
and a half spacings below the end. -/
def room : Nat := (2 ^ 55 - 10) * topSpacing

/-! ## Nearest scores -/

/-- The shift of a quotient leaves at most fifty-three bits in front of the point. -/
theorem lt_shift (pos : 0 < d) : n < 2 ^ 53 * (d * 2 ^ ((n / d).log2 - 52)) := by
  have short : n / d < 2 ^ (53 + ((n / d).log2 - 52)) :=
    Nat.lt_of_lt_of_le Nat.lt_log2_self (Nat.pow_le_pow_right (by decide) (by omega))
  rw [Nat.mul_left_comm, ← Nat.pow_add, Nat.mul_comm]
  exact (Nat.div_lt_iff_lt_mul pos).1 short

/-- The shift of a large quotient leaves at least fifty-three bits. -/
theorem shift_le (pos : 0 < d) (large : 2 ^ 52 * d ≤ n) :
    2 ^ 52 * (d * 2 ^ ((n / d).log2 - 52)) ≤ n := by
  have least : 2 ^ 52 ≤ n / d := (Nat.le_div_iff_mul_le pos).2 large
  have nonzero : n / d ≠ 0 := by omega
  have long : 52 ≤ (n / d).log2 := (Nat.le_log2 nonzero).2 least
  rw [Nat.mul_left_comm, ← Nat.pow_add, Nat.add_sub_of_le long, Nat.mul_comm]
  exact (Nat.le_div_iff_mul_le pos).1 (Nat.log2_self_le nonzero)

/-- Rounding a large quotient adds at most one part of `2 ^ 53`. -/
theorem quanta_nearestQuanta_le (pos : 0 < d) (large : 2 ^ 52 * d ≤ n)
    (top : (n / d).log2 ≤ 2097) :
    (nearestQuanta false n d).quanta * d * 2 ^ 53 ≤ n * (2 ^ 53 + 1) := by
  have low := shift_le pos large
  have high := lt_shift (n := n) pos
  have top' : (n / d).log2 - 52 ≤ 2045 := by omega
  unfold nearestQuanta
  dsimp only
  generalize (n / d).log2 - 52 = shift at *
  have pos' : 0 < d * 2 ^ shift := Nat.mul_pos pos (Nat.two_pow_pos shift)
  have near := roundHalfEven_le (n := n) pos'
  rw [quanta_ofMagnitude (le_roundHalfEven pos' low) (roundHalfEven_le_of_lt pos' (by omega)) top',
    Nat.mul_assoc (roundHalfEven _ _), Nat.mul_comm (2 ^ shift)]
  omega

theorem le_of_log2 {k : Nat} (pos : 0 < d) (long : k < (n / d).log2) : 2 ^ k * d ≤ n := by
  have nonzero : n / d ≠ 0 := by
    intro zero
    rw [zero, Nat.log2_zero] at long
    exact Nat.not_lt_zero k long
  exact (Nat.le_div_iff_mul_le pos).1 ((Nat.le_log2 nonzero).1 (Nat.le_of_lt long))

/-- A quotient that is half a spacing below the end is rounded to a finite score. -/
theorem isFinite_nearestQuanta (pos : 0 < d) (small : 2 * n < (2 ^ 54 - 1) * (d * topSpacing)) :
    (nearestQuanta false n d).isFinite = true := by
  have high := lt_shift (n := n) pos
  have finite : ((n / d).log2 - 52) * 2 ^ 52 +
      roundHalfEven n (d * 2 ^ ((n / d).log2 - 52)) < infiniteMagnitude := by
    have pos' : 0 < d * 2 ^ ((n / d).log2 - 52) := Nat.mul_pos pos (Nat.two_pow_pos _)
    unfold infiniteMagnitude
    rcases Nat.lt_trichotomy ((n / d).log2 - 52) 2045 with lower | same | higher
    · have := roundHalfEven_le_of_lt (n := n) (k := 2 ^ 53) pos' (by omega)
      omega
    · rw [← topSpacing_eq_pow same] at pos' ⊢
      have := roundHalfEven_le_of_lt (n := n) (k := 2 ^ 53 - 1) pos' (by omega)
      omega
    · -- Such a quotient lies above the end.
      have large := shift_le pos (le_of_log2 (n := n) pos (by omega))
      obtain ⟨k, shift⟩ : ∃ k, (n / d).log2 - 52 = 2045 + (k + 1) :=
        ⟨(n / d).log2 - 52 - 2046, by omega⟩
      have double : d * topSpacing * 2 ≤ d * 2 ^ ((n / d).log2 - 52) := by
        rw [shift, Nat.pow_add, ← topSpacing, Nat.pow_succ, Nat.mul_assoc]
        refine Nat.mul_le_mul_left d (Nat.mul_le_mul_left _ ?_)
        exact Nat.le_mul_of_pos_left 2 (Nat.two_pow_pos k)
      have nonzero : 0 < d * topSpacing := Nat.mul_pos pos topSpacing_pos
      omega
  unfold nearestQuanta
  dsimp only
  rw [isFinite, magnitude_ofMagnitude false (Nat.le_of_lt finite)]
  exact decide_eq_true finite

/-! ## Products -/

theorem log2_ten_pow {e : Nat} (small : e ≤ 308) : (10 ^ e).log2 ≤ 1023 := by
  have top : 10 ^ 308 < 2 ^ 1024 := by decide +kernel
  have power : 10 ^ e < 2 ^ 1024 :=
    Nat.lt_of_le_of_lt (Nat.pow_le_pow_right (by decide) small) top
  have bits : (10 ^ e).log2 < 1024 :=
    (Nat.log2_lt (Nat.ne_of_gt (Nat.pow_pos (by decide)))).2 power
  exact Nat.le_of_lt_succ bits

/-- A natural number grows by at most one part of `2 ^ 53` when it is rounded. -/
theorem quanta_ofNat_le (pos : 0 < n) (small : n.log2 ≤ 1023) :
    (ofNat n).quanta * 2 ^ 53 ≤ n * quantaOfOne * (2 ^ 53 + 1) := by
  have large : 2 ^ 52 * 1 ≤ n * quantaOfOne := by
    obtain ⟨k, sum⟩ : ∃ k, 52 + k = 1074 := ⟨1022, rfl⟩
    rw [quantaOfOne_eq sum, Nat.mul_left_comm]
    exact Nat.mul_le_mul_left _ (Nat.mul_pos pos (Nat.two_pow_pos k))
  have log : (n * quantaOfOne / 1).log2 ≤ 2097 := by
    rw [Nat.div_one, log2_mul_quantaOfOne (Nat.ne_of_gt pos)]
    omega
  have near := quanta_nearestQuanta_le Nat.one_pos large log
  rwa [Nat.mul_one] at near

/-- A significand times a power of ten is finite if there is room for the exact product. -/
theorem isFinite_mul_powerOfTen {e : Nat} (pos : 0 < n) (short : n.log2 ≤ 1023) (small : e ≤ 308)
    (fits : 4 * (n * 10 ^ e * quantaOfOne) ≤ room) :
    ((ofNat n).mul (powerOfTen e)).isFinite = true := by
  have left := quanta_ofNat_le pos short
  have right : (powerOfTen e).quanta * 2 ^ 53 ≤ 10 ^ e * quantaOfOne * (2 ^ 53 + 1) :=
    quanta_ofNat_le (Nat.pow_pos (by decide)) (log2_ten_pow small)
  refine isFinite_nearestQuanta quantaOfOne_pos ?_
  have space : 0 < quantaOfOne * topSpacing := Nat.mul_pos quantaOfOne_pos topSpacing_pos
  generalize (ofNat n).quanta = a at *
  generalize (powerOfTen e).quanta = b at *
  have product : 4 * 2 ^ 106 * (a * b) ≤
      (2 ^ 55 - 10) * (2 ^ 53 + 1) ^ 2 * (quantaOfOne * topSpacing) := by
    calc 4 * 2 ^ 106 * (a * b)
        = 4 * (a * 2 ^ 53 * (b * 2 ^ 53)) := by ring
      _ ≤ 4 * (n * quantaOfOne * (2 ^ 53 + 1) * (10 ^ e * quantaOfOne * (2 ^ 53 + 1))) :=
          Nat.mul_le_mul_left 4 (Nat.mul_le_mul left right)
      _ = 4 * (n * 10 ^ e * quantaOfOne) * (quantaOfOne * (2 ^ 53 + 1) ^ 2) := by ring
      _ ≤ (2 ^ 55 - 10) * topSpacing * (quantaOfOne * (2 ^ 53 + 1) ^ 2) :=
          Nat.mul_le_mul_right _ fits
      _ = (2 ^ 55 - 10) * (2 ^ 53 + 1) ^ 2 * (quantaOfOne * topSpacing) := by ring
  omega

/-! ## Reading significands -/

theorem scaled_isSome {e : Int} (short : n < wordLimit)
    (fits : 4 * (n * 10 ^ e.toNat * quantaOfOne) ≤ room) : (scaled n e).isSome := by
  unfold scaled
  dsimp only
  split
  next => rfl
  next nonzero =>
    have pos := Nat.pos_of_ne_zero nonzero
    have low : e.toNat ≤ 308 := by
      refine Nat.le_of_not_lt fun high => ?_
      obtain ⟨k, sum⟩ : ∃ k, k + 1074 = 2045 := ⟨971, rfl⟩
      obtain ⟨top, least⟩ : ∃ top, top = 309 := ⟨309, rfl⟩
      have power : 10 ^ top ≤ n * 10 ^ e.toNat :=
        Nat.le_trans (Nat.pow_le_pow_right (by decide) (by omega)) (Nat.le_mul_of_pos_left _ pos)
      have above : (2 ^ 55 - 10) * 2 ^ k < 4 * 10 ^ top := by
        obtain rfl : k = 971 := Nat.add_right_cancel sum
        rw [least]
        decide +kernel
      rw [room, topSpacing_eq_quanta sum, ← Nat.mul_assoc 4, ← Nat.mul_assoc (2 ^ 55 - 10)] at fits
      have := Nat.le_of_mul_le_mul_right fits quantaOfOne_pos
      omega
    have bits : n.log2 ≤ 1023 := by
      have : n.log2 < 64 := (Nat.log2_lt nonzero).2 short
      omega
    rw [if_neg (by omega)]
    split
    next => rw [if_pos (isFinite_mul_powerOfTen pos bits low fits)]; rfl
    next =>
      split
      next => rfl
      next => split <;> rfl

/-- Nothing is out of range without a positive power of ten. -/
theorem scaled_isSome_of_nonpos {e : Int} (short : n < wordLimit) (below : e ≤ 0) :
    (scaled n e).isSome := by
  refine scaled_isSome short ?_
  obtain ⟨k, sum⟩ : ∃ k, 64 + k + 1074 = 2045 := ⟨907, rfl⟩
  rw [Int.toNat_eq_zero.2 below, Nat.pow_zero, Nat.mul_one, room, topSpacing_eq_quanta sum,
    ← Nat.mul_assoc 4, ← Nat.mul_assoc (2 ^ 55 - 10)]
  refine Nat.mul_le_mul_right _ ?_
  have : 2 ^ 64 ≤ 2 ^ (64 + k) := Nat.pow_le_pow_right (by decide) (Nat.le_add_right _ _)
  unfold wordLimit at short
  omega

/-! ## Filling the significand -/

theorem mul_pow_le_foldl_digits (m : Nat) (ds : List Digit) :
    m * 10 ^ ds.length ≤ ds.foldl (fun n d => 10 * n + d.val) m := by
  induction ds generalizing m with
  | nil => exact Nat.le_of_eq (Nat.mul_one m)
  | cons d ds ih =>
    rw [List.foldl_cons, List.length_cons, Nat.pow_succ', ← Nat.mul_assoc, Nat.mul_comm m]
    exact Nat.le_trans (Nat.mul_le_mul_right _ (Nat.le_add_right _ _)) (ih _)

/-- The digits left over count as zeros, which makes the number no larger. -/
theorem fill_le (m : Nat) (ds : List Digit) :
    (fill m ds).1 * 10 ^ (fill m ds).2 ≤ ds.foldl (fun n d => 10 * n + d.val) m := by
  induction ds generalizing m with
  | nil => exact Nat.le_of_eq (Nat.mul_one m)
  | cons d ds ih =>
    rw [fill]
    split
    next => exact ih _
    next => exact mul_pow_le_foldl_digits m (d :: ds)

theorem fill_lt {m : Nat} (short : m < wordLimit) (ds : List Digit) :
    (fill m ds).1 < wordLimit := by
  induction ds generalizing m with
  | nil => exact short
  | cons d ds ih =>
    rw [fill]
    split
    next fits => exact ih fits
    next => exact short

theorem fill_unread_le (m : Nat) (ds : List Digit) : (fill m ds).2 ≤ ds.length := by
  induction ds generalizing m with
  | nil => exact Nat.le_refl _
  | cons d ds ih =>
    rw [fill]
    split
    next => exact Nat.le_succ_of_le (ih _)
    next => exact Nat.le_refl _

/-- A numeral is read as its significand and a power of ten. -/
theorem ofNumeral_isSome {numeral : Numeral} (whole : numeral.whole < wordLimit)
    (scaled : (scaled (fill numeral.whole numeral.fraction).1
      (numeral.exponent.getD 0 + (fill numeral.whole numeral.fraction).2
        - numeral.fraction.length)).isSome) : (ofNumeral numeral).isSome := by
  have value : (Digit.ofNat numeral.whole).foldl (fun n d => 10 * n + d.val) 0 = numeral.whole :=
    Digit.value_ofNat _
  have filled : fill 0 (Digit.ofNat numeral.whole) = (numeral.whole, 0) := by
    rw [fill_of_lt (by rwa [value]), value]
  have unread := fill_unread_le numeral.whole numeral.fraction
  have exponent : ((0 : Nat) : Int) - (numeral.fraction.length -
      (fill numeral.whole numeral.fraction).2 : Nat) + numeral.exponent.getD 0 =
      numeral.exponent.getD 0 + (fill numeral.whole numeral.fraction).2
        - numeral.fraction.length := by
    omega
  obtain ⟨s, found⟩ := Option.isSome_iff_exists.1 scaled
  unfold ofNumeral
  rw [filled]
  dsimp only
  rw [exponent, found]
  rfl

/-- A numeral without a power of ten is in range. -/
theorem ofNumeral_isSome_of_point {numeral : Numeral} (whole : numeral.whole < wordLimit)
    (point : numeral.exponent = none) : (ofNumeral numeral).isSome := by
  have unread := fill_unread_le numeral.whole numeral.fraction
  refine ofNumeral_isSome whole (scaled_isSome_of_nonpos (fill_lt whole _) ?_)
  rw [point, Option.getD_none]
  omega

/-- Sixteen digits in front of the point are read without loss. -/
theorem layout_whole_lt (ds : List Digit) {places : Nat} (few : places ≤ 16) :
    Digit.value (ds.take places) * 10 ^ (places - ds.length) < wordLimit := by
  have taken : (ds.take places).length + (places - ds.length) = places := by
    rw [List.length_take]
    omega
  calc Digit.value (ds.take places) * 10 ^ (places - ds.length)
      < 10 ^ (ds.take places).length * 10 ^ (places - ds.length) :=
        Nat.mul_lt_mul_of_pos_right (Digit.value_lt _) (Nat.pow_pos (by decide))
    _ = 10 ^ places := by rw [← Nat.pow_add, taken]
    _ ≤ 10 ^ 16 := Nat.pow_le_pow_right (by decide) few
    _ ≤ wordLimit := by decide

/-- Digits left over move into the power of ten. -/
theorem fits_of_unread {m unread : Nat} {k : Int} (read : m * 10 ^ unread ≤ n)
    (above : 0 ≤ unread + k)
    (fits : 4 * (n * 10 ^ k.toNat * quantaOfOne) ≤ room * 10 ^ (-k).toNat) :
    4 * (m * 10 ^ (unread + k).toNat * quantaOfOne) ≤ room := by
  have powers : 10 ^ (unread + k).toNat * 10 ^ (-k).toNat = 10 ^ unread * 10 ^ k.toNat := by
    rw [← Nat.pow_add, ← Nat.pow_add]
    congr 1
    omega
  have pos : 0 < 10 ^ (-k).toNat := Nat.pow_pos (by decide)
  refine Nat.le_of_mul_le_mul_right ?_ pos
  calc 4 * (m * 10 ^ (unread + k).toNat * quantaOfOne) * 10 ^ (-k).toNat
      = 4 * (m * (10 ^ (unread + k).toNat * 10 ^ (-k).toNat) * quantaOfOne) := by ring
    _ = 4 * (m * 10 ^ unread * 10 ^ k.toNat * quantaOfOne) := by rw [powers]; ring
    _ ≤ 4 * (n * 10 ^ k.toNat * quantaOfOne) := by gcongr
    _ ≤ room * 10 ^ (-k).toNat := fits

/-- The numeral of a decimal is in range if there is room for its value. -/
theorem layout_isSome (negative : Bool) {k : Int}
    (fits : 4 * (n * 10 ^ k.toNat * quantaOfOne) ≤ room * 10 ^ (-k).toNat) :
    (ofNumeral (layout negative (Digit.ofNat n) ((Digit.ofNat n).length + k))).isSome := by
  have value := Digit.value_ofNat n
  have some : 0 < (Digit.ofNat n).length := by
    rcases Digit.ofNat_shape n with ⟨d, form, -⟩ | ⟨d, ds, form, -⟩ <;> simp [form]
  generalize Digit.ofNat n = ds at *
  unfold layout
  split
  next =>
    have short : Digit.value (ds.take 1) < wordLimit := by
      have one : 10 ^ (ds.take 1).length ≤ 10 ^ 1 :=
        Nat.pow_le_pow_right (by decide) (List.length_take_le 1 ds)
      exact Nat.lt_trans (Nat.lt_of_lt_of_le (Digit.value_lt _) one) (by decide)
    have read := fill_le (Digit.value (ds.take 1)) (ds.drop 1)
    have joined : (ds.drop 1).foldl (fun n d => 10 * n + d.val) (Digit.value (ds.take 1)) = n := by
      rw [Digit.value, ← List.foldl_append, List.take_append_drop]
      exact value
    rw [joined] at read
    refine ofNumeral_isSome short ?_
    dsimp only [Option.getD_some]
    have unread := fill_unread_le (Digit.value (ds.take 1)) (ds.drop 1)
    have word := fill_lt short (ds.drop 1)
    have rest : (ds.drop 1).length = ds.length - 1 := List.length_drop
    generalize fill (Digit.value (ds.take 1)) (ds.drop 1) = filled at *
    have exponent : ((ds.length : Int) + k - 1) + filled.2 - (ds.drop 1).length = filled.2 + k := by
      omega
    rw [exponent]
    rcases Int.le_total (filled.2 + k) 0 with below | above
    · exact scaled_isSome_of_nonpos word below
    · exact scaled_isSome word (fits_of_unread read above fits)
  next =>
    split
    next => exact ofNumeral_isSome_of_point (Nat.two_pow_pos 64) rfl
    next => exact ofNumeral_isSome_of_point (layout_whole_lt ds (by omega)) rfl

/-! ## The shortest decimal -/

variable {s : Score}

/-- Grid points lie in the interval, or below one that does. -/
theorem gridPoint_le {k : Int} {x : Nat} (found : s.gridPoint k = some x) :
    x * (4 * quantaOfOne * 10 ^ k.toNat) ≤ s.intervalHigh * 10 ^ (-k).toNat := by
  unfold gridPoint at found
  dsimp only at found
  generalize 4 * quantaOfOne * 10 ^ k.toNat = step at *
  generalize 10 ^ (-k).toNat = scale at *
  have neighbours := roundHalfEven_cases (4 * s.quanta * scale) step
  generalize 4 * s.quanta * scale / step = below at *
  split at found
  next both =>
    have above := (bounds_of_intervalHolds (Bool.and_eq_true_iff.1 both).2).2
    refine Nat.le_trans (Nat.mul_le_mul_right step ?_) above
    rw [← Option.some.inj found]
    omega
  next =>
    split at found
    next holds =>
      rw [← Option.some.inj found]
      exact (bounds_of_intervalHolds (Bool.and_eq_true_iff.1 holds).2).2
    next =>
      split at found
      next holds =>
        rw [← Option.some.inj found]
        exact (bounds_of_intervalHolds holds).2
      next => contradiction

theorem firstGridPoint_le {tries : Nat} {k : Int} {d : Decimal}
    (found : s.firstGridPoint tries k = some d) :
    d.digits * (4 * quantaOfOne * 10 ^ d.exponent.toNat) ≤
      s.intervalHigh * 10 ^ (-d.exponent).toNat := by
  induction tries generalizing k with
  | zero => contradiction
  | succ tries ih =>
    rw [firstGridPoint] at found
    split at found
    next point =>
      rw [← Option.some.inj found]
      exact gridPoint_le point
    next => exact ih found

/-- The shortest decimal does not exceed the interval. -/
theorem shortest_le (s : Score) :
    4 * (s.shortest.digits * 10 ^ s.shortest.exponent.toNat * quantaOfOne) ≤
      s.intervalHigh * 10 ^ (-s.shortest.exponent).toNat := by
  unfold shortest
  cases found : s.firstGridPoint 24 s.topExponent with
  | some d =>
    have := firstGridPoint_le found
    rw [Option.getD_some]
    calc 4 * (d.digits * 10 ^ d.exponent.toNat * quantaOfOne)
        = d.digits * (4 * quantaOfOne * 10 ^ d.exponent.toNat) := by ring
      _ ≤ _ := this
  | none =>
    -- The exact value, which the search leaves no use for.
    have exact : s.quanta * 5 ^ 1074 * 10 ^ (-1074 : Int).toNat * quantaOfOne =
        s.quanta * 10 ^ (-(-1074 : Int)).toNat := by
      obtain ⟨k, same⟩ : ∃ k, k = 1074 := ⟨1074, rfl⟩
      have one : (-1074 : Int).toNat = 0 := rfl
      have places : (-(-1074 : Int)).toNat = k := same.symm
      rw [one, places, ← same, quantaOfOne_eq ((Nat.zero_add k).trans same), Nat.pow_zero,
        Nat.one_mul, Nat.mul_one, Nat.mul_assoc, ← Nat.mul_pow]
    rw [Option.getD_none]
    dsimp only
    rw [exact, ← Nat.mul_assoc]
    exact Nat.mul_le_mul_right _ (Nat.le_add_right _ _)

/-- Apart from the two largest scores of either sign, intervals stay away from the end. -/
theorem intervalHigh_le (below : s.magnitude + 2 < infiniteMagnitude) : s.intervalHigh ≤ room := by
  obtain ⟨shift, top⟩ : ∃ shift, shift = 2045 := ⟨2045, rfl⟩
  have word : (ofMagnitude false (shift * 2 ^ 52 + (2 ^ 53 - 3))).magnitude =
      shift * 2 ^ 52 + (2 ^ 53 - 3) := by
    refine magnitude_ofMagnitude false ?_
    unfold infiniteMagnitude
    omega
  have quanta : s.quanta ≤ (2 ^ 53 - 3) * topSpacing := by
    rw [topSpacing_eq_pow top, ← quanta_ofMagnitude (by decide) (by decide) (Nat.le_of_eq top)]
    refine Nat.le_of_not_lt fun larger => ?_
    have := quanta_lt_iff.1 larger
    rw [word] at this
    unfold infiniteMagnitude at below
    omega
  have spacing : s.spacing ≤ topSpacing := by
    rw [topSpacing_eq_pow top, Score.spacing]
    refine Nat.pow_le_pow_right (by decide) ?_
    unfold exponentBits
    unfold infiniteMagnitude at below
    omega
  unfold intervalHigh room
  omega

/-! ## Stored scores -/

/-- A finite score is the one of its sign and magnitude. -/
theorem ofMagnitude_magnitude (finite : s.isFinite = true) :
    ofMagnitude s.isNegative s.magnitude = s := by
  have small : s.magnitude < infiniteMagnitude := of_decide_eq_true finite
  have word := s.bits.toNat_lt
  have same : (ofMagnitude s.isNegative s.magnitude).bits = s.bits := by
    rw [← UInt64.toNat_inj]
    unfold ofMagnitude
    dsimp only
    rw [Nat.min_eq_left (Nat.le_of_lt small), UInt64.toNat_ofNat', isNegative, magnitude]
    split
    next sign =>
      have := of_decide_eq_true sign
      omega
    next sign =>
      have := of_decide_eq_false (Bool.eq_false_iff.2 sign)
      omega
  cases s
  exact congrArg Score.mk same

/-- What the stored form of a score is read as. -/
def reread (s : Score) : Option Score := s.numeral?.bind ofNumeral

theorem reread_largest (negative : Bool) :
    (ofMagnitude negative (infiniteMagnitude - 1)).reread.isSome ∧
      (ofMagnitude negative (infiniteMagnitude - 2)).reread.isSome := by
  cases negative <;> decide +kernel

theorem reread_isSome_of_isFinite (finite : s.isFinite = true) : s.reread.isSome := by
  have small : s.magnitude < infiniteMagnitude := of_decide_eq_true finite
  rcases Nat.lt_or_ge (s.magnitude + 2) infiniteMagnitude with below | top
  · unfold reread numeral?
    rw [finite, Bool.not_true, if_neg Bool.false_ne_true]
    split
    next =>
      rw [Option.bind_some]
      exact ofNumeral_isSome_of_point (Nat.two_pow_pos 64) rfl
    next =>
      rw [Option.bind_some]
      refine layout_isSome s.isNegative (Nat.le_trans s.shortest_le ?_)
      exact Nat.mul_le_mul_right _ (intervalHigh_le below)
  · have largest := reread_largest s.isNegative
    rw [← ofMagnitude_magnitude finite]
    rcases Nat.lt_or_ge (s.magnitude + 1) infiniteMagnitude with second | first
    · rw [show s.magnitude = infiniteMagnitude - 2 by omega]
      exact largest.2
    · rw [show s.magnitude = infiniteMagnitude - 1 by omega]
      exact largest.1

/-- A finite score may be read as its neighbour. -/
example :
    let s := ofDecimal false 11644774837973855 (-16)
    s.text = "1.1644774837973855" ∧ s.reread = some ⟨s.bits + 1⟩ := by
  decide +kernel

/-- Exactly the infinities and NaN are not read back. -/
theorem reread_eq_none_iff : s.reread = none ↔ s.isFinite = false := by
  cases finite : s.isFinite with
  | true =>
    have read := reread_isSome_of_isFinite finite
    rw [Option.isSome_iff_ne_none] at read
    exact ⟨fun none => absurd none read, fun h => absurd h (by decide)⟩
  | false =>
    refine ⟨fun _ => rfl, fun _ => ?_⟩
    rw [reread, numeral?, finite]
    rfl

end Score

end Matchmaking
