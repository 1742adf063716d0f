import Mathlib.Data.List.Basic
import Matchmaking.Json.Numeral
import Matchmaking.Powers

/-!
# Numerals read back

The reader takes a printed numeral off the front of a text, provided that what
follows could not belong to it: no digit, no point and no exponent letter
(`Numeral.Ends`).

A natural number is printed without leading zeros, so the reader's check for
them never fires on a printed numeral.
-/

namespace Matchmaking

namespace Digit

theorem ofChar?_toChar (d : Digit) : ofChar? d.toChar = some d := by
  revert d
  decide

theorem toChar_ne_minus (d : Digit) : d.toChar ≠ '-' := by
  revert d
  decide

/-- No digit stands at the front of a text. -/
def Ends (rest : List Char) : Prop := ∀ c cs, rest = c :: cs → ofChar? c = none

theorem run_of_ends {rest : List Char} (ends : Ends rest) : run rest = ([], rest) := by
  cases rest with
  | nil => rfl
  | cons c cs => rw [run, ends c cs rfl]

/-- Printed digits are taken off as far as they go. -/
theorem run_append (ds : List Digit) {rest : List Char} (ends : Ends rest) :
    run (ds.map toChar ++ rest) = (ds, rest) := by
  induction ds with
  | nil => exact run_of_ends ends
  | cons d ds ih => rw [List.map_cons, List.cons_append, run, ofChar?_toChar, ih]

theorem value_append (ds : List Digit) (d : Digit) : value (ds ++ [d]) = 10 * value ds + d.val := by
  rw [value, value, List.foldl_append]
  rfl

theorem val_ofNat (n : Nat) : (Fin.ofNat 10 n).val = n % 10 := rfl

/-- The digits of a number write the number. -/
theorem value_ofNat (n : Nat) : value (ofNat n) = n := by
  induction n using Nat.strongRecOn with
  | _ n ih =>
    rw [ofNat]
    split
    next small =>
      show 10 * 0 + (Fin.ofNat 10 n).val = n
      rw [val_ofNat]
      omega
    next large =>
      rw [value_append, ih (n / 10) (by omega), val_ofNat]
      omega

/-- The digits of a number are a single one, or start with none that is zero. -/
theorem ofNat_shape (n : Nat) :
    (∃ d : Digit, ofNat n = [d] ∧ d.val = n) ∨
      ∃ (d : Digit) (ds : List Digit), ofNat n = d :: ds ∧ ds ≠ [] ∧ d ≠ 0 := by
  induction n using Nat.strongRecOn with
  | _ n ih =>
    rw [ofNat]
    split
    next small => exact .inl ⟨_, rfl, (val_ofNat n).trans (Nat.mod_eq_of_lt small)⟩
    next large =>
      refine .inr ?_
      rcases ih (n / 10) (by omega) with ⟨d, form, same⟩ | ⟨d, ds, form, _, nonzero⟩
      · refine ⟨d, [Fin.ofNat 10 n], by rw [form]; rfl, List.cons_ne_nil _ _, fun zero => ?_⟩
        have : d.val = 0 := congrArg Fin.val zero
        omega
      · exact ⟨d, ds ++ [Fin.ofNat 10 n], by rw [form]; rfl, by simp, nonzero⟩

theorem length_ofNat {n : Nat} (pos : 0 < n) :
    ∃ k, (ofNat n).length = k + 1 ∧ 10 ^ k ≤ n := by
  induction n using Nat.strongRecOn with
  | _ n ih =>
    rw [ofNat]
    split
    next small => exact ⟨0, rfl, pos⟩
    next large =>
      obtain ⟨k, length, least⟩ := ih (n / 10) (by omega) (by omega)
      refine ⟨k + 1, ?_, ?_⟩
      · rw [List.length_append, length]
        rfl
      · rw [Nat.pow_succ]
        omega

end Digit

namespace Numeral

/-- Nothing of a numeral stands at the front of a text. -/
def Ends (rest : List Char) : Prop :=
  ∀ c cs, rest = c :: cs → Digit.ofChar? c = none ∧ c ≠ '.' ∧ c ≠ 'e' ∧ c ≠ 'E'

theorem Ends.digits {rest : List Char} (ends : Ends rest) : Digit.Ends rest :=
  fun c cs h => (ends c cs h).1

theorem readWhole_natChars (n : Nat) {rest : List Char} (ends : Digit.Ends rest) :
    readWhole (natChars n ++ rest) = some (n, rest) := by
  rw [readWhole, natChars, Digit.run_append _ ends]
  have whole := Digit.value_ofNat n
  rcases Digit.ofNat_shape n with ⟨d, form, same⟩ | ⟨d, ds, form, more, nonzero⟩
  · rw [form]
    dsimp only
    rw [same]
  · rw [form] at whole ⊢
    cases ds with
    | nil => exact absurd rfl more
    | cons d' ds =>
      dsimp only
      rw [if_neg nonzero, whole]

theorem readFraction_fractionChars (ds : List Digit) {rest : List Char} (ends : Digit.Ends rest)
    (noPoint : ∀ c cs, rest = c :: cs → c ≠ '.') :
    readFraction (fractionChars ds ++ rest) = some (ds, rest) := by
  cases ds with
  | nil =>
    cases rest with
    | nil => rfl
    | cons c cs =>
      have := noPoint c cs rfl
      simp [fractionChars, readFraction, this]
  | cons d ds =>
    show readFraction ('.' :: ((d :: ds).map Digit.toChar ++ rest)) = _
    rw [readFraction, Digit.run_append _ ends]

theorem readPower_sign (negative : Bool) (n : Nat) {rest : List Char} (ends : Digit.Ends rest) :
    readPower ((if negative then '-' else '+') :: (natChars n ++ rest)) =
      some (some (if negative then -(n : Int) else n), rest) := by
  have sign : readSign ((if negative then '-' else '+') :: (natChars n ++ rest)) =
      (negative, natChars n ++ rest) := by
    cases negative <;> rfl
  rw [readPower, sign, natChars]
  dsimp only
  rw [Digit.run_append _ ends]
  have whole := Digit.value_ofNat n
  cases h : Digit.ofNat n with
  | nil =>
    rcases Digit.ofNat_shape n with ⟨d, form, _⟩ | ⟨d, ds, form, _⟩ <;>
      exact absurd (h.symm.trans form) (List.cons_ne_nil _ _).symm
  | cons d ds =>
    rw [h] at whole
    dsimp only
    rw [whole]

theorem readExponent_exponentChars (e : Option Int) {rest : List Char} (ends : Ends rest) :
    readExponent (exponentChars e ++ rest) = some (e, rest) := by
  cases e with
  | none =>
    cases rest with
    | nil => rfl
    | cons c cs =>
      obtain ⟨-, -, small, capital⟩ := ends c cs rfl
      simp [exponentChars, readExponent, small, capital]
  | some e =>
    cases e with
    | ofNat n => exact readPower_sign false n ends.digits
    | negSucc n => exact readPower_sign true (n + 1) ends.digits

/-- No exponent starts with a digit or a point. -/
theorem exponentChars_ends (e : Option Int) {rest : List Char} (ends : Ends rest) :
    ∀ c cs, exponentChars e ++ rest = c :: cs → Digit.ofChar? c = none ∧ c ≠ '.' := by
  intro c cs h
  cases e with
  | none => exact ⟨(ends c cs h).1, (ends c cs h).2.1⟩
  | some e =>
    have first : c = 'e' := by
      cases e <;> exact (List.cons.inj h).1.symm
    subst first
    decide

/-- No fraction starts with a digit. -/
theorem fractionChars_ends (ds : List Digit) {rest : List Char} (ends : Digit.Ends rest) :
    Digit.Ends (fractionChars ds ++ rest) := by
  cases ds with
  | nil => exact ends
  | cons d ds =>
    intro c cs h
    obtain ⟨rfl, -⟩ := List.cons.inj h
    decide

theorem readUnsigned_append (n : Numeral) {rest : List Char} (ends : Ends rest) :
    readUnsigned n.negative (natChars n.whole ++ (fractionChars n.fraction ++
      (exponentChars n.exponent ++ rest))) = some (n, rest) := by
  have power := exponentChars_ends n.exponent ends
  have tail : Digit.Ends (exponentChars n.exponent ++ rest) := fun c cs h => (power c cs h).1
  rw [readUnsigned, readWhole_natChars n.whole (fractionChars_ends n.fraction tail)]
  dsimp only [Option.bind_eq_bind, Option.bind_some]
  rw [readFraction_fractionChars n.fraction tail fun c cs h => (power c cs h).2]
  dsimp only [Option.bind_some]
  rw [readExponent_exponentChars n.exponent ends]
  rfl

/-- A printed natural number starts with a digit. -/
theorem natChars_cons (n : Nat) : ∃ (d : Digit) (cs : List Char), natChars n = d.toChar :: cs := by
  rcases Digit.ofNat_shape n with ⟨d, form, _⟩ | ⟨d, ds, form, _⟩
  · exact ⟨d, [], by rw [natChars, form]; rfl⟩
  · exact ⟨d, ds.map Digit.toChar, by rw [natChars, form]; rfl⟩

theorem chars_append (n : Numeral) (rest : List Char) :
    n.chars ++ rest = (if n.negative then ['-'] else []) ++ (natChars n.whole ++
      (fractionChars n.fraction ++ (exponentChars n.exponent ++ rest))) := by
  simp only [chars, List.append_assoc]

/-- A printed numeral starts with a minus sign or a digit. -/
theorem chars_cons (n : Numeral) :
    ∃ c cs, n.chars = c :: cs ∧ (c = '-' ∨ ∃ d : Digit, c = d.toChar) := by
  obtain ⟨d, cs, form⟩ := natChars_cons n.whole
  have whole := n.chars_append []
  rw [List.append_nil, form] at whole
  cases sign : n.negative with
  | true => exact ⟨_, _, whole.trans (by rw [sign]; rfl), .inl rfl⟩
  | false => exact ⟨_, _, whole.trans (by rw [sign]; rfl), .inr ⟨d, rfl⟩⟩

/-- Reading takes a printed numeral off the front of a text. -/
theorem read_append (n : Numeral) {rest : List Char} (ends : Ends rest) :
    read (n.chars ++ rest) = some (n, rest) := by
  have body := readUnsigned_append n ends
  obtain ⟨d, cs, form⟩ := natChars_cons n.whole
  have unsigned : d.toChar ≠ '-' := Digit.toChar_ne_minus d
  rw [chars_append]
  cases sign : n.negative with
  | true =>
    rw [sign] at body
    exact body
  | false =>
    rw [sign, form] at body
    rw [form, if_neg Bool.false_ne_true, List.nil_append, List.cons_append, read]
    · exact body
    · exact fun _ h => unsigned (List.cons.inj h).1

end Numeral

end Matchmaking
