import Mathlib.Tactic.Ring
import Matchmaking.Proofs.Records

/-!
# Whole scores read back

Parties are queued at the time at which they join, in whole milliseconds.  The score
of a whole number of up to fifty-three bits is that number (`Score.Whole`).  Whole
numbers lie further apart than the interval of such a score is wide, so the shortest
decimal is the number itself, on whatever grid the search finds it.

The number is written with a point and a zero, and the zero becomes part of the
significand.  So it reads back if ten times the number still has fifty-three bits
(`Score.readsBack_ofNat`).
-/

namespace Matchmaking

/-! ## Rounding quotients -/

theorem roundHalfEven_mul_left {c : Nat} (pos : 0 < c) (n d : Nat) :
    roundHalfEven (c * n) (c * d) = roundHalfEven n d := by
  have twice : 2 * (c * (n % d)) = c * (2 * (n % d)) := Nat.mul_left_comm 2 c _
  unfold roundHalfEven
  dsimp only
  rw [Nat.mul_div_mul_left n d pos, Nat.mul_mod_mul_left, twice]
  simp only [Nat.mul_lt_mul_left pos]

theorem roundHalfEven_multiple {d : Nat} (pos : 0 < d) (q : Nat) : roundHalfEven (d * q) d = q := by
  unfold roundHalfEven
  dsimp only
  rw [Nat.mul_div_cancel_left q pos, Nat.mul_mod_right, if_pos pos]

theorem log2_mul_two_pow {n : Nat} (nonzero : n ≠ 0) (k : Nat) :
    (n * 2 ^ k).log2 = n.log2 + k := by
  induction k with
  | zero => rw [Nat.pow_zero, Nat.mul_one, Nat.add_zero]
  | succ k ih =>
    have more : n * 2 ^ k ≠ 0 := Nat.mul_ne_zero nonzero (Nat.ne_of_gt (Nat.two_pow_pos k))
    rw [Nat.pow_succ, Nat.mul_comm _ 2, Nat.mul_left_comm, Nat.log2_two_mul more, ih,
      Nat.add_assoc]

namespace Score

theorem quantaOfOne_eq {j k : Nat} (sum : j + k = 1074) : quantaOfOne = 2 ^ j * 2 ^ k := by
  rw [← Nat.pow_add, sum, quantaOfOne]

theorem quantaOfOne_pos : 0 < quantaOfOne := by
  obtain ⟨k, sum⟩ : ∃ k, 0 + k = 1074 := ⟨_, Nat.zero_add _⟩
  rw [quantaOfOne_eq sum]
  exact Nat.mul_pos Nat.one_pos (Nat.two_pow_pos k)

theorem log2_mul_quantaOfOne {n : Nat} (nonzero : n ≠ 0) :
    (n * quantaOfOne).log2 = n.log2 + 1074 := by
  obtain ⟨k, sum⟩ : ∃ k, 0 + k = 1074 := ⟨_, Nat.zero_add _⟩
  rw [quantaOfOne_eq sum, Nat.pow_zero, Nat.one_mul, log2_mul_two_pow nonzero, ← sum, Nat.zero_add]

/-- Rounding a quotient depends on its value only. -/
theorem nearestQuanta_mul_left (negative : Bool) {c : Nat} (pos : 0 < c) (n d : Nat) :
    nearestQuanta negative (c * n) (c * d) = nearestQuanta negative n d := by
  unfold nearestQuanta
  dsimp only
  rw [Nat.mul_div_mul_left n d pos, Nat.mul_assoc, roundHalfEven_mul_left pos]

theorem toNat_ofMagnitude {m : Nat} (finite : m < infiniteMagnitude) :
    (ofMagnitude false m).bits.toNat = m := by
  have small : m < 2 ^ 64 := Nat.lt_trans finite (by decide)
  unfold ofMagnitude
  dsimp only
  rw [Nat.min_eq_left (Nat.le_of_lt finite), if_neg Bool.false_ne_true, UInt64.toNat_ofNat',
    Nat.mod_eq_of_lt small]

/-! ## The score of a whole number -/

/-- A score is a whole number, and others are not too close. -/
structure Whole (s : Score) (n : Nat) : Prop where
  sign : s.isNegative = false
  finite : s.isFinite = true
  quanta : s.quanta = n * quantaOfOne
  spacing : s.spacing ≤ quantaOfOne

theorem whole_ofNat {n : Nat} (pos : 0 < n) (small : n < 2 ^ 53) : Whole (ofNat n) n := by
  have nonzero : n ≠ 0 := Nat.ne_of_gt pos
  have low : 2 ^ n.log2 ≤ n := Nat.log2_self_le nonzero
  have high : n < 2 ^ (n.log2 + 1) := Nat.lt_log2_self
  have log : n.log2 ≤ 52 := by
    have := (Nat.log2_lt nonzero).2 small
    omega
  obtain ⟨k, sum⟩ : ∃ k, n.log2 + k = 52 := ⟨52 - n.log2, by omega⟩
  -- The significand, fifty-three bits long.
  have long : 2 ^ 52 ≤ n * 2 ^ k := by
    rw [← sum, Nat.pow_add]
    exact Nat.mul_le_mul_right _ low
  have short : n * 2 ^ k < 2 ^ 53 := by
    rw [show 53 = n.log2 + 1 + k by omega, Nat.pow_add]
    exact Nat.mul_lt_mul_of_pos_right high (Nat.two_pow_pos k)
  have one : quantaOfOne = 2 ^ k * 2 ^ (n.log2 + 1022) := quantaOfOne_eq (by omega)
  have log' : (n * quantaOfOne).log2 - 52 = n.log2 + 1022 := by
    rw [log2_mul_quantaOfOne nonzero]
    omega
  have form : ofNat n = ofMagnitude false ((n.log2 + 1022) * 2 ^ 52 + n * 2 ^ k) := by
    unfold ofNat nearest nearestQuanta
    dsimp only
    rw [Nat.div_one, log', one, ← Nat.mul_assoc, Nat.one_mul, Nat.mul_comm (n * 2 ^ k),
      roundHalfEven_multiple (Nat.two_pow_pos _)]
  have finite : (n.log2 + 1022) * 2 ^ 52 + n * 2 ^ k < infiniteMagnitude := by
    unfold infiniteMagnitude
    omega
  have word := toNat_ofMagnitude finite
  rw [← form] at word
  have positive : (n.log2 + 1022) * 2 ^ 52 + n * 2 ^ k < 2 ^ 63 := Nat.lt_trans finite (by decide)
  have magnitude : (ofNat n).magnitude = (n.log2 + 1022) * 2 ^ 52 + n * 2 ^ k := by
    rw [Score.magnitude, word, Nat.mod_eq_of_lt positive]
  have exponent : (ofNat n).exponentBits = n.log2 + 1023 := by
    rw [exponentBits, magnitude]
    omega
  have significand : (ofNat n).significand = n * 2 ^ k := by
    rw [Score.significand, exponent, if_neg (by omega), fractionBits, magnitude]
    omega
  have spacing : (ofNat n).spacing = 2 ^ (n.log2 + 1022) := by
    rw [Score.spacing, exponent]
    rfl
  refine ⟨?_, ?_, ?_, ?_⟩
  · rw [isNegative, word]
    exact decide_eq_false (Nat.not_le.2 positive)
  · rw [isFinite, magnitude]
    exact decide_eq_true finite
  · rw [quanta, significand, spacing, one, Nat.mul_assoc]
  · rw [spacing, one]
    exact Nat.le_mul_of_pos_left _ (Nat.two_pow_pos k)

/-! ## The written form of a whole number -/

variable {s : Score} {n : Nat}

theorem bounds_of_intervalHolds {m d : Nat} (h : s.intervalHolds m d = true) :
    s.intervalLow * d ≤ m ∧ m ≤ s.intervalHigh * d := by
  unfold intervalHolds at h
  split at h
  · obtain ⟨low, high⟩ := Bool.and_eq_true_iff.1 h
    exact ⟨of_decide_eq_true low, of_decide_eq_true high⟩
  · obtain ⟨low, high⟩ := Bool.and_eq_true_iff.1 h
    exact ⟨Nat.le_of_lt (of_decide_eq_true low), Nat.le_of_lt (of_decide_eq_true high)⟩

theorem intervalLow_ge : 4 * s.quanta - 2 * s.spacing ≤ s.intervalLow := by
  unfold intervalLow
  split <;> omega

/-- Whole numbers are too far apart to round to one score. -/
theorem Whole.eq_of_holds (whole : Whole s n) {x e : Nat}
    (h : s.intervalHolds (x * (4 * quantaOfOne * 10 ^ e)) 1 = true) : x * 10 ^ e = n := by
  obtain ⟨low, high⟩ := bounds_of_intervalHolds h
  have low' := s.intervalLow_ge
  have near := whole.spacing
  have pos := quantaOfOne_pos
  have form : x * (4 * quantaOfOne * 10 ^ e) = 4 * (x * 10 ^ e * quantaOfOne) := by ring
  rw [form] at low high
  rw [intervalHigh] at high
  rw [whole.quanta] at low' high
  rcases Nat.lt_trichotomy (x * 10 ^ e) n with less | same | more
  · have step := Nat.mul_le_mul_right quantaOfOne (Nat.succ_le_of_lt less)
    rw [Nat.succ_mul] at step
    omega
  · exact same
  · have step := Nat.mul_le_mul_right quantaOfOne (Nat.succ_le_of_lt more)
    rw [Nat.succ_mul] at step
    omega

/-- A point on the grid of a power of ten is the number. -/
theorem Whole.gridPoint (whole : Whole s n) {e x : Nat} (found : s.gridPoint e = some x) :
    x * 10 ^ e = n := by
  have power : (e : Int).toNat = e := rfl
  have scale : 10 ^ (-(e : Int)).toNat = 1 := by
    rw [Int.toNat_eq_zero.2 (by omega), Nat.pow_zero]
  unfold Score.gridPoint at found
  simp only [power, scale, Nat.mul_one] at found
  generalize 4 * s.quanta / (4 * quantaOfOne * 10 ^ e) = below at found
  split at found
  next both =>
    -- Two neighbours cannot both be the number.
    obtain ⟨below', above'⟩ := Bool.and_eq_true_iff.1 both
    have here := whole.eq_of_holds (Bool.and_eq_true_iff.1 below').2
    have there := whole.eq_of_holds above'
    have pos : 0 < 10 ^ e := Nat.pow_pos (by decide)
    rw [Nat.succ_mul] at there
    omega
  next =>
    split at found
    next below' =>
      rw [← Option.some.inj found]
      exact whole.eq_of_holds (Bool.and_eq_true_iff.1 below').2
    next =>
      split at found
      next above' =>
        rw [← Option.some.inj found]
        exact whole.eq_of_holds above'
      next => contradiction

/-- A score rounds to itself. -/
theorem intervalHolds_self (pos : 0 < s.quanta) : s.intervalHolds (4 * s.quanta) 1 = true := by
  have gap : 0 < s.spacing := Nat.two_pow_pos _
  have low : s.intervalLow < 4 * s.quanta := by
    unfold intervalLow
    split <;> omega
  have high : 4 * s.quanta < s.intervalHigh := by
    unfold intervalHigh
    omega
  unfold intervalHolds
  rw [Nat.mul_one, Nat.mul_one]
  split <;> simp <;> omega

/-- The number itself is a point on the grid of ones. -/
theorem Whole.gridPoint_zero (whole : Whole s n) (pos : 0 < n) :
    ∃ x, s.gridPoint 0 = some x := by
  have positive : 0 < s.quanta := whole.quanta ▸ Nat.mul_pos pos quantaOfOne_pos
  have form : 4 * s.quanta = n * (4 * quantaOfOne) := by
    rw [whole.quanta]
    ring
  have below : 4 * s.quanta / (4 * quantaOfOne) = n := by
    rw [form, Nat.mul_div_cancel n (Nat.mul_pos (by decide) quantaOfOne_pos)]
  have holds := intervalHolds_self positive
  unfold Score.gridPoint
  have ones : ∀ m : Nat, m * 10 ^ (0 : Int).toNat = m := Nat.mul_one
  have one : 10 ^ (-0 : Int).toNat = 1 := rfl
  simp only [ones, one, Nat.mul_one, below, ← form, holds, decide_eq_true pos, Bool.true_and]
  split
  next => exact ⟨_, rfl⟩
  next => exact ⟨_, rfl⟩

/-- The search ends with the number, on the grid of ones at the latest. -/
theorem Whole.firstGridPoint (whole : Whole s n) (pos : 0 < n) {tries e : Nat} (enough : e < tries) :
    ∃ d k : Nat, s.firstGridPoint tries e = some ⟨d, k⟩ ∧ d * 10 ^ k = n := by
  induction e generalizing tries with
  | zero =>
    obtain ⟨x, found⟩ := whole.gridPoint_zero pos
    obtain ⟨tries, rfl⟩ : ∃ t, tries = t + 1 := ⟨tries - 1, by omega⟩
    refine ⟨x, 0, ?_, whole.gridPoint found⟩
    rw [Score.firstGridPoint, Int.natCast_zero, found]
  | succ e ih =>
    obtain ⟨tries, rfl⟩ : ∃ t, tries = t + 1 := ⟨tries - 1, by omega⟩
    rw [Score.firstGridPoint]
    cases found : s.gridPoint (e + 1 : Nat) with
    | some x => exact ⟨x, e + 1, rfl, whole.gridPoint found⟩
    | none =>
      have back : ((e + 1 : Nat) : Int) - 1 = e := by omega
      rw [back]
      exact ih (by omega)

theorem Whole.shortest (whole : Whole s n) (pos : 0 < n) (small : n < 2 ^ 53) :
    ∃ d k : Nat, s.shortest = ⟨d, k⟩ ∧ d * 10 ^ k = n := by
  have nonzero : n ≠ 0 := Nat.ne_of_gt pos
  have log : s.quanta.log2 = n.log2 + 1074 := by
    rw [whole.quanta, log2_mul_quantaOfOne nonzero]
  have bound := (Nat.log2_lt nonzero).2 small
  have top : s.topExponent = s.topExponent.toNat := by
    rw [topExponent, log]
    omega
  have enough : s.topExponent.toNat < 24 := by
    rw [topExponent, log]
    omega
  obtain ⟨d, k, found, same⟩ := whole.firstGridPoint pos enough
  refine ⟨d, k, ?_, same⟩
  rw [Score.shortest, top, found]
  rfl

theorem layout_whole {ds : List Digit} {k : Nat} (digits : ds ≠ []) (short : ds.length + k ≤ 16) :
    layout false ds (ds.length + k : Nat) = ⟨false, Digit.value ds * 10 ^ k, [0], none⟩ := by
  have some : 0 < ds.length := List.length_pos_iff.2 digits
  have places : ((ds.length + k : Nat) : Int).toNat = ds.length + k := rfl
  have rest : ds.length + k - ds.length = k := Nat.add_sub_cancel_left _ _
  unfold layout
  rw [if_neg (by omega), if_neg (by omega)]
  dsimp only
  rw [places, rest, List.take_of_length_le (by omega), List.drop_eq_nil_of_le (by omega)]
  rfl

/-- A whole number is written with a point and a zero. -/
theorem numeral?_ofNat (small : n < 10 ^ 15) : (ofNat n).numeral? = some ⟨false, n, [0], none⟩ := by
  rcases Nat.eq_zero_or_pos n with rfl | pos
  · decide +kernel
  · have whole := whole_ofNat pos (Nat.lt_trans small (by decide))
    obtain ⟨d, k, shortest, same⟩ := whole.shortest pos (Nat.lt_trans small (by decide))
    have nonzero : (ofNat n).quanta ≠ 0 :=
      Nat.ne_of_gt (whole.quanta ▸ Nat.mul_pos pos quantaOfOne_pos)
    have digit : 0 < d := by
      rcases Nat.eq_zero_or_pos d with rfl | digit
      · omega
      · exact digit
    obtain ⟨j, length, least⟩ := Digit.length_ofNat digit
    have short : 10 ^ (j + k) < 10 ^ 15 := by
      rw [Nat.pow_add]
      exact Nat.lt_of_le_of_lt (Nat.mul_le_mul_right _ least) (same ▸ small)
    have short := (Nat.pow_lt_pow_iff_right (by decide)).1 short
    have some : Digit.ofNat d ≠ [] := List.ne_nil_of_length_eq_add_one length
    unfold numeral?
    rw [whole.finite, whole.sign, if_neg nonzero, shortest]
    simp only [Bool.not_true, Bool.false_eq_true, if_false]
    rw [← Int.natCast_add, layout_whole some (by omega), Digit.value_ofNat, same]

/-! ## Reading a whole number -/

theorem le_foldl_digits (m : Nat) (ds : List Digit) :
    m ≤ ds.foldl (fun n d => 10 * n + d.val) m := by
  induction ds generalizing m with
  | nil => exact Nat.le_refl m
  | cons d ds ih =>
    have := ih (10 * m + d.val)
    rw [List.foldl_cons]
    omega

/-- Digits that fit go into the significand. -/
theorem fill_of_lt {m : Nat} {ds : List Digit}
    (fits : ds.foldl (fun n d => 10 * n + d.val) m < wordLimit) :
    fill m ds = (ds.foldl (fun n d => 10 * n + d.val) m, 0) := by
  induction ds generalizing m with
  | nil => rfl
  | cons d ds ih =>
    rw [List.foldl_cons] at fits ⊢
    rw [fill, if_pos (Nat.lt_of_le_of_lt (le_foldl_digits _ ds) fits), ih fits]

theorem div_ten (pos : 0 < n) (small : 10 * n < 2 ^ 53) :
    (ofNat (10 * n)).div (powerOfTen 1) = ofNat n := by
  have ten : (powerOfTen 1).quanta = 10 * quantaOfOne :=
    (whole_ofNat (n := 10) (by decide) (by decide)).quanta
  have scaled := (whole_ofNat (Nat.mul_pos (by decide) pos) small).quanta
  have form : 10 * n * quantaOfOne * quantaOfOne = 10 * quantaOfOne * (n * quantaOfOne) := by ring
  rw [div, ten, scaled, form]
  have exact := nearestQuanta_mul_left false (Nat.mul_pos (show 0 < 10 by decide) quantaOfOne_pos)
    (n * quantaOfOne) 1
  rw [Nat.mul_one] at exact
  exact exact

theorem ofNumeral_whole (small : 10 * n < 2 ^ 53) :
    ofNumeral ⟨false, n, [0], none⟩ = some (ofNat n) := by
  have limit : 2 ^ 53 < wordLimit := by decide
  have whole : (Digit.ofNat n).foldl (fun n d => 10 * n + d.val) 0 = n := Digit.value_ofNat n
  have filled : fill 0 (Digit.ofNat n) = (n, 0) := by
    rw [fill_of_lt, whole]
    rw [whole]
    omega
  have filled' : fill n [0] = (10 * n, 0) := fill_of_lt (Nat.lt_trans small limit)
  have scaled : scaled (10 * n) (-1) = some (ofNat n) := by
    rcases Nat.eq_zero_or_pos n with rfl | pos
    · rfl
    · rw [Score.scaled, if_neg (by omega), if_neg (by decide), if_neg (by decide), if_pos (by decide)]
      exact congrArg some (div_ten pos small)
  rw [ofNumeral, filled]
  dsimp only
  rw [filled']
  show ((Score.scaled (10 * n) (-1)).bind fun s => some (if false = true then s.neg else s)) = _
  rw [scaled]
  rfl

theorem readsBack_ofNat (small : 10 * n < 2 ^ 53) : (ofNat n).ReadsBack := by
  rw [ReadsBack, numeral?_ofNat (by omega)]
  exact ofNumeral_whole small

end Score

end Matchmaking
