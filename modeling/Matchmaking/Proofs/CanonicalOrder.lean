import Mathlib.Tactic.SplitIfs
import Matchmaking.Proofs.SortedSets

/-!
# The canonical order of members

Sorted sets compare scores by their rank and members by their characters.  This module
says what that order is, without ranks and characters.

* Texts are ordered by the bytes that encode them (`text_lt_iff`).  The first bytes of
  longer encodings are larger, and within one length the bits of a character are spread
  from the top.  So the bytes of a smaller character come first, whatever follows.
* Scores are ordered by sign and magnitude (`Score.Below`).  That is the total order of
  IEEE 754: numbers by size, `-0` in front of `0`, and every NaN behind or in front of
  all numbers by its sign (`Score.below_iff_value`).
* A member stands in front of another if its score is below, or if the scores are the
  same and its bytes come first (`ScoredMember.precedes_iff_before`).
-/

namespace Matchmaking

/-! ## Texts -/

/-- The bytes that encode a text. -/
def utf8Bytes (text : String) : List UInt8 := text.toByteArray.data.toList

theorem utf8Bytes_eq (text : String) :
    utf8Bytes text = text.toList.flatMap String.utf8EncodeChar := by
  rw [utf8Bytes, ← String.utf8Encode_toList, List.utf8Encode, List.toList_data_toByteArray]

/-- Bytes are compared as their numbers. -/
theorem cons_byte_lt {x y : Nat} (hx : x < 256) (hy : y < 256) {s t : List UInt8} :
    UInt8.ofNat x :: s < UInt8.ofNat y :: t ↔ x < y ∨ x = y ∧ s < t := by
  rw [List.cons_lt_cons_iff, UInt8.lt_iff_toNat_lt, ← UInt8.toNat_inj,
    UInt8.toNat_ofNat', UInt8.toNat_ofNat', Nat.mod_eq_of_lt hx, Nat.mod_eq_of_lt hy]

/-- The bytes of a smaller character come first, whatever follows. -/
theorem utf8EncodeChar_append_lt {c d : Char} (less : c < d) (s t : List UInt8) :
    String.utf8EncodeChar c ++ s < String.utf8EncodeChar d ++ t := by
  have less : c.val.toNat < d.val.toNat := less
  have top : d.val.toNat < 0x110000 := by
    rcases d.valid with low | ⟨-, high⟩
    · exact Nat.lt_trans low (by decide)
    · exact high
  unfold String.utf8EncodeChar
  dsimp only
  generalize c.val.toNat = v at *
  generalize d.val.toNat = w at *
  split_ifs <;>
    simp (disch := omega) only [List.cons_append, List.nil_append, cons_byte_lt]
  any_goals omega
  -- Both characters take four bytes.
  rcases Nat.lt_or_ge (v / 4096) (w / 4096) with high | high
  · omega
  · have same : v / 4096 = w / 4096 := by omega
    have same' : v / 262144 = w / 262144 := by omega
    rw [same, same']
    omega

theorem flatMap_utf8EncodeChar_lt {cs ds : List Char} (less : cs < ds) :
    cs.flatMap String.utf8EncodeChar < ds.flatMap String.utf8EncodeChar := by
  induction less with
  | @nil d ds =>
    have filled : String.utf8EncodeChar d ++ ds.flatMap String.utf8EncodeChar ≠ [] :=
      List.append_ne_nil_of_left_ne_nil String.utf8EncodeChar_ne_nil _
    obtain ⟨byte, bytes, same⟩ := List.exists_cons_of_ne_nil filled
    rw [List.flatMap_nil, List.flatMap_cons, same]
    exact List.nil_lt_cons byte bytes
  | cons _ ih =>
    rw [List.flatMap_cons, List.flatMap_cons]
    exact List.append_left_lt ih
  | rel less =>
    rw [List.flatMap_cons, List.flatMap_cons]
    exact utf8EncodeChar_append_lt less _ _

/-- Texts are ordered as the bytes that encode them. -/
theorem text_lt_iff {a b : String} : a < b ↔ utf8Bytes a < utf8Bytes b := by
  have bytes {a b : String} (less : a < b) : utf8Bytes a < utf8Bytes b := by
    rw [utf8Bytes_eq, utf8Bytes_eq]
    exact flatMap_utf8EncodeChar_lt less
  refine ⟨bytes, fun less => Decidable.byContradiction fun behind => ?_⟩
  rcases Decidable.em (b < a) with ahead | level
  · exact List.lt_asymm less (bytes ahead)
  · obtain rfl : a = b := String.le_antisymm level behind
    exact List.lt_irrefl _ less

theorem compare_text_eq_lt {a b : String} : compare a b = .lt ↔ utf8Bytes a < utf8Bytes b :=
  compareOfLessAndEq_eq_lt.trans text_lt_iff

/-! ## Scores -/

namespace Score

/-- One score is below another in the total order of IEEE 754: negative signs come first,
and signs that agree leave it to the magnitudes. -/
def Below (a b : Score) : Prop :=
  (a.isNegative ∧ ¬ b.isNegative) ∨
    (¬ a.isNegative ∧ ¬ b.isNegative ∧ a.magnitude < b.magnitude) ∨
    (a.isNegative ∧ b.isNegative ∧ b.magnitude < a.magnitude)

instance (a b : Score) : Decidable (a.Below b) := inferInstanceAs (Decidable (_ ∨ _ ∨ _))

theorem compare_eq_lt {a b : Score} : compare a b = .lt ↔ a.Below b := by
  have ha := a.bits.toNat_lt
  have hb := b.bits.toNat_lt
  rw [compare_eq, Nat.compare_eq_lt]
  simp only [rank, Below, isNegative, magnitude, decide_eq_true_eq]
  split <;> split <;> omega

/-- Larger magnitudes are larger numbers of quanta. -/
theorem quanta_lt {a b : Score} (less : a.magnitude < b.magnitude) : a.quanta < b.quanta := by
  have fraction : a.fractionBits < 2 ^ 52 := Nat.mod_lt _ (by decide)
  have exponents : a.exponentBits ≤ b.exponentBits := Nat.div_le_div_right (Nat.le_of_lt less)
  rcases Nat.lt_or_eq_of_le exponents with lower | same
  · calc a.quanta < 2 ^ 52 * 2 ^ a.exponentBits := by
          rw [quanta, significand, spacing]
          split
          next zero =>
            rw [zero]
            exact Nat.mul_lt_mul_of_pos_right fraction (by decide)
          next positive =>
            have double : 2 ^ a.exponentBits = 2 * 2 ^ (a.exponentBits - 1) := by
              rw [← Nat.pow_succ']
              congr 1
              omega
            rw [double, ← Nat.mul_assoc]
            exact Nat.mul_lt_mul_of_pos_right (by omega) (Nat.two_pow_pos _)
      _ ≤ 2 ^ 52 * b.spacing :=
          Nat.mul_le_mul_left _ (Nat.pow_le_pow_right (by decide) (Nat.le_sub_one_of_lt lower))
      _ ≤ b.quanta := by
          rw [quanta, significand, if_neg (Nat.ne_of_gt (Nat.zero_lt_of_lt lower))]
          exact Nat.mul_le_mul_right _ (Nat.le_add_right _ _)
  · have fractions : a.fractionBits < b.fractionBits := by
      have split (s : Score) : s.magnitude = 2 ^ 52 * s.exponentBits + s.fractionBits :=
        (Nat.div_add_mod _ _).symm
      rw [split a, split b, same] at less
      exact Nat.lt_of_add_lt_add_left less
    rw [quanta, quanta, significand, significand, spacing, spacing, same]
    refine Nat.mul_lt_mul_of_pos_right ?_ (Nat.two_pow_pos _)
    split
    · exact fractions
    · exact Nat.add_lt_add_left fractions _

theorem quanta_lt_iff {a b : Score} : a.quanta < b.quanta ↔ a.magnitude < b.magnitude := by
  refine ⟨fun less => ?_, quanta_lt⟩
  rcases Nat.lt_trichotomy a.magnitude b.magnitude with ahead | same | behind
  · exact ahead
  · have exponents : a.exponentBits = b.exponentBits := congrArg (· / 2 ^ 52) same
    have fractions : a.fractionBits = b.fractionBits := congrArg (· % 2 ^ 52) same
    rw [quanta, quanta, significand, significand, spacing, spacing, exponents, fractions] at less
    exact absurd less (Nat.lt_irrefl _)
  · exact absurd less (Nat.lt_asymm (quanta_lt behind))

/-- The number that a finite score stands for, in quanta. -/
def value (s : Score) : Int := if s.isNegative then -s.quanta else s.quanta

/-- Scores are ordered as numbers, and of the two zeros the negative one is below. -/
theorem below_iff_value {a b : Score} :
    a.Below b ↔ a.value < b.value ∨ a.value = b.value ∧ a.isNegative ∧ ¬ b.isNegative := by
  rw [Below, ← quanta_lt_iff, ← quanta_lt_iff, value, value]
  cases a.isNegative <;> cases b.isNegative <;> simp
  -- A negative number and one that is not: both may be zero.
  omega

end Score

/-! ## Members -/

namespace ScoredMember

/-- One member stands in front of another: its score is below, or the scores are the same
and its bytes come first. -/
def Before (a b : ScoredMember) : Prop :=
  a.score.Below b.score ∨ a.score = b.score ∧ utf8Bytes a.member < utf8Bytes b.member

instance (a b : ScoredMember) : Decidable (a.Before b) := inferInstanceAs (Decidable (_ ∨ _))

/-- Sorted sets list their members in this order. -/
theorem precedes_iff_before {a b : ScoredMember} : a.precedes b ↔ a.Before b := by
  rw [precedes_iff, order, Ordering.then_eq_lt, Score.compare_eq_lt, compare_text_eq_lt,
    Std.LawfulEqOrd.compare_eq_iff_eq]
  rfl

end ScoredMember

end Matchmaking
