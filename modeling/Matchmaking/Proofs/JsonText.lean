import Matchmaking.Json.Parser
import Matchmaking.Proofs.Numerals

/-!
# JSON text reads back

Parsing the printed form of a value gives the value (`Json.parse_print`), for
every value, strings without content included.

The proof goes by the constructors of a value, with the fuel that its text needs:
two units for each character, and one more behind an opening bracket.  What
follows a value matters to numerals only, which take all they can get, so a value
is read in front of any text that a numeral ends at.
-/

namespace Matchmaking

namespace Json

/-! ## Strings -/

/-- The part that a printed character is read as. -/
def piece (c : Char) : Piece :=
  if c = '\x08' ∨ c = '\t' ∨ c = '\n' ∨ c = '\x0c' ∨ c = '\r' then .char c
  else if c.toNat < 32 then .unit c.toNat
  else .char c

theorem hexUnit?_hexDigit : ∀ n < 32,
    hexUnit? '0' '0' (hexDigit (n / 16)) (hexDigit (n % 16)) = some n := by
  decide

/-- A printed character is read as its part. -/
theorem readPieces_escape (c : Char) (done : List Piece) (cs : List Char) :
    readPieces done (escape c ++ cs) = readPieces (piece c :: done) cs := by
  unfold escape
  split
  next h => subst h; rfl
  split
  next h => subst h; rfl
  split
  next h => subst h; rfl
  split
  next h => subst h; rfl
  split
  next h => subst h; rfl
  split
  next h => subst h; rfl
  split
  next h => subst h; rfl
  next quote backslash _ _ _ _ _ =>
    have part : piece c = if c.toNat < 32 then .unit c.toNat else .char c := by
      rw [piece, if_neg]
      simp [*]
    split
    next control =>
      rw [part, if_pos control]
      show readPieces done ('\\' :: 'u' :: '0' :: '0' :: hexDigit (c.toNat / 16) ::
        hexDigit (c.toNat % 16) :: cs) = _
      rw [readPieces, hexUnit?_hexDigit _ control]
    next plain =>
      rw [part, if_neg plain, List.singleton_append, readPieces]
      · rw [if_neg (by simp [plain, backslash])]
      · exact quote
      · exact fun _ _ _ _ _ same _ => backslash same
      · exact fun _ _ same _ => backslash same

/-- A printed string is read as the parts of its characters. -/
theorem readPieces_escaped (cs : List Char) (done : List Piece) (rest : List Char) :
    readPieces done (escaped cs ++ rest) = some (done.reverse ++ cs.map piece, rest) := by
  induction cs generalizing done with
  | nil => simp [escaped, readPieces]
  | cons c cs ih =>
    rw [escaped, List.append_assoc, readPieces_escape, ih]
    simp

/-- A control unit is a character of its own. -/
theorem content?_control {u : Nat} (control : u < 32) (ps : List Piece) :
    content? (.unit u :: ps) = (content? ps).map (Char.ofNat u :: ·) := by
  have high : isHighHalf u = false := by
    simp only [isHighHalf, Bool.and_eq_false_iff, decide_eq_false_iff_not]
    omega
  have low : isLowHalf u = false := by
    simp only [isLowHalf, Bool.and_eq_false_iff, decide_eq_false_iff_not]
    omega
  cases ps with
  | nil => simp [content?, high, low]
  | cons p ps => cases p <;> simp [content?, high, low]

/-- The parts of printed characters stand for the characters. -/
theorem content?_map_piece (cs : List Char) : content? (cs.map piece) = some cs := by
  induction cs with
  | nil => rfl
  | cons c cs ih =>
    rw [List.map_cons, piece]
    split
    · rw [content?, ih, Option.map_some]
    · split
      next control => rw [content?_control control, ih, Option.map_some, Char.ofNat_toNat]
      · rw [content?, ih, Option.map_some]

/-- The text of a string behind its opening quote. -/
def afterQuote : Option String → List Char
  | some s => escaped s.toList
  | none => ['\\', 'u', 'd', '8', '0', '0', '"']

theorem quoted_eq (content : Option String) : quoted content = '"' :: afterQuote content := by
  cases content <;> rfl

/-- A printed string is read as its content. -/
theorem readString_afterQuote (content : Option String) (rest : List Char) :
    readString (afterQuote content ++ rest) = some (content, rest) := by
  cases content with
  | some s =>
    rw [afterQuote, readString, readPieces_escaped]
    simp [content?_map_piece]
  | none => rfl

/-! ## Values -/

theorem dropBlanks_cons {c : Char} (cs : List Char) (h : isBlank c = false) :
    (c :: cs).dropWhile isBlank = c :: cs :=
  List.dropWhile_cons_of_neg (by simp [h])

/-- A character that a value may start with and that closes nothing. -/
structure Opens (c : Char) : Prop where
  notBlank : isBlank c = false
  notBracket : c ≠ ']'
  notBrace : c ≠ '}'

/-- A numeral starts like no other value. -/
theorem numeral_opens (n : Numeral) : ∃ c cs, n.chars = c :: cs ∧ Opens c ∧
    c ≠ 'n' ∧ c ≠ 't' ∧ c ≠ 'f' ∧ c ≠ '"' ∧ c ≠ '[' ∧ c ≠ '{' := by
  obtain ⟨c, cs, form, rfl | ⟨d, rfl⟩⟩ := n.chars_cons
  · exact ⟨_, cs, form, ⟨by decide, by decide, by decide⟩, by decide⟩
  · refine ⟨_, cs, form, ?_⟩
    have all : ∀ d : Digit, (isBlank d.toChar = false ∧ d.toChar ≠ ']' ∧ d.toChar ≠ '}') ∧
        d.toChar ≠ 'n' ∧ d.toChar ≠ 't' ∧ d.toChar ≠ 'f' ∧ d.toChar ≠ '"' ∧ d.toChar ≠ '[' ∧
        d.toChar ≠ '{' := by
      decide
    obtain ⟨⟨notBlank, notBracket, notBrace⟩, others⟩ := all d
    exact ⟨⟨notBlank, notBracket, notBrace⟩, others⟩

theorem chars_opens (j : Json) : ∃ c cs, j.chars = c :: cs ∧ Opens c := by
  have opens (c : Char) (cs : List Char) (form : j.chars = c :: cs)
      (free : isBlank c = false ∧ c ≠ ']' ∧ c ≠ '}') : ∃ c cs, j.chars = c :: cs ∧ Opens c :=
    ⟨c, cs, form, free.1, free.2.1, free.2.2⟩
  cases j with
  | null => exact opens 'n' _ (by rw [chars]) (by decide)
  | bool value =>
    cases value with
    | true => exact opens 't' _ (by rw [chars]) (by decide)
    | false => exact opens 'f' _ (by rw [chars]) (by decide)
  | number n =>
    obtain ⟨c, cs, form, opens, -⟩ := numeral_opens n
    exact ⟨c, cs, by rw [chars, form], opens⟩
  | string content => exact opens '"' _ (by rw [chars, quoted_eq]) (by decide)
  | array items => exact opens '[' _ (by rw [chars]) (by decide)
  | object members => exact opens '{' _ (by rw [chars]) (by decide)

theorem readValue_numeral (fuel : Nat) (n : Numeral) {rest : List Char} (ends : Numeral.Ends rest) :
    readValue (fuel + 1) (n.chars ++ rest) = some (.number n, rest) := by
  have whole := n.read_append ends
  obtain ⟨c, cs, form, opens, others⟩ := numeral_opens n
  rw [form, List.cons_append] at whole ⊢
  rw [readValue, dropBlanks_cons _ opens.notBlank]
  split <;> simp_all

/-! ### One step of each reader -/

section

variable {fuel : Nat} {cs rest : List Char} {item : Json} {items : List Json}
  {member : Option String × Json} {members : List (Option String × Json)}

theorem readValue_string (content : Option String) :
    readValue (fuel + 1) (quoted content ++ rest) = some (.string content, rest) := by
  rw [quoted_eq, List.cons_append, readValue, dropBlanks_cons _ (by decide)]
  simp [readString_afterQuote]

theorem readValue_array (inner : readItems fuel cs = some (items, rest)) :
    readValue (fuel + 1) ('[' :: cs) = some (.array items, rest) := by
  rw [readValue, dropBlanks_cons _ (by decide)]
  simp [inner]

theorem readValue_object (inner : readMembers fuel cs = some (members, rest)) :
    readValue (fuel + 1) ('{' :: cs) = some (.object members, rest) := by
  rw [readValue, dropBlanks_cons _ (by decide)]
  simp [inner]

theorem readItems_step (value : readValue fuel (item.chars ++ cs) = some (item, cs))
    (more : readMoreItems fuel cs = some (items, rest)) :
    readItems (fuel + 1) (item.chars ++ cs) = some (item :: items, rest) := by
  obtain ⟨c, tail, form, opens⟩ := chars_opens item
  rw [form, List.cons_append] at value ⊢
  rw [readItems, dropBlanks_cons _ opens.notBlank]
  split
  next h => exact absurd (List.cons.inj h).1 opens.notBracket
  next => simp [value, more]

theorem readMoreItems_step (value : readValue fuel (item.chars ++ cs) = some (item, cs))
    (more : readMoreItems fuel cs = some (items, rest)) :
    readMoreItems (fuel + 1) (',' :: (item.chars ++ cs)) = some (item :: items, rest) := by
  rw [readMoreItems, dropBlanks_cons _ (by decide)]
  simp [value, more]

theorem readMember_step {name : Option String}
    (value : readValue fuel (item.chars ++ cs) = some (item, cs)) :
    readMember (fuel + 1) (quoted name ++ ':' :: (item.chars ++ cs)) =
      some ((name, item), cs) := by
  have colon : (':' :: (item.chars ++ cs)).dropWhile isBlank = ':' :: (item.chars ++ cs) :=
    dropBlanks_cons _ (by decide)
  rw [quoted_eq, List.cons_append, readMember, dropBlanks_cons _ (by decide)]
  simp [readString_afterQuote, colon, value]

theorem readMembers_step {name : Option String} {tail : List Char}
    (head : readMember fuel (quoted name ++ cs) = some (member, tail))
    (more : readMoreMembers fuel tail = some (members, rest)) :
    readMembers (fuel + 1) (quoted name ++ cs) = some (member :: members, rest) := by
  rw [quoted_eq, List.cons_append] at head ⊢
  rw [readMembers, dropBlanks_cons _ (by decide)]
  simp [head, more]

theorem readMoreMembers_step {tail : List Char} (head : readMember fuel cs = some (member, tail))
    (more : readMoreMembers fuel tail = some (members, rest)) :
    readMoreMembers (fuel + 1) (',' :: cs) = some (member :: members, rest) := by
  rw [readMoreMembers, dropBlanks_cons _ (by decide)]
  simp [head, more]

end

/-! ### The induction -/

/-- What follows an item or a member ends a numeral. -/
theorem ends_of_mark {c : Char} (mark : c = ',' ∨ c = ']' ∨ c = '}') (cs : List Char) :
    Numeral.Ends (c :: cs) := by
  intro c' cs' h
  obtain ⟨rfl, -⟩ := List.cons.inj h
  rcases mark with rfl | rfl | rfl <;> decide

theorem moreItemsChars_ends (items : List Json) (rest : List Char) :
    Numeral.Ends (moreItemsChars items ++ rest) := by
  cases items with
  | nil =>
    rw [moreItemsChars]
    exact ends_of_mark (by decide) _
  | cons item items =>
    rw [moreItemsChars]
    exact ends_of_mark (by decide) _

theorem moreMembersChars_ends (members : List (Option String × Json)) (rest : List Char) :
    Numeral.Ends (moreMembersChars members ++ rest) := by
  cases members with
  | nil =>
    rw [moreMembersChars]
    exact ends_of_mark (by decide) _
  | cons member members =>
    rw [moreMembersChars]
    exact ends_of_mark (by decide) _

theorem length_quoted_pos (content : Option String) : 0 < (quoted content).length := by
  rw [quoted_eq]
  exact Nat.succ_pos _

theorem length_chars_pos (j : Json) : 0 < j.chars.length := by
  obtain ⟨c, cs, form, -⟩ := chars_opens j
  rw [form]
  exact Nat.succ_pos _

mutual

/-- A printed value is read off the front of a text. -/
theorem readValue_chars (j : Json) (fuel : Nat) (rest : List Char)
    (enough : 2 * j.chars.length ≤ fuel) (ends : Numeral.Ends rest) :
    readValue fuel (j.chars ++ rest) = some (j, rest) := by
  have := length_chars_pos j
  obtain ⟨fuel, rfl⟩ : ∃ f, fuel = f + 1 := ⟨fuel - 1, by omega⟩
  match j with
  | .null => rfl
  | .bool true => rfl
  | .bool false => rfl
  | .number n => exact readValue_numeral fuel n ends
  | .string content =>
    rw [chars]
    exact readValue_string content
  | .array items =>
    rw [chars, List.length_cons] at enough
    rw [chars, List.cons_append]
    exact readValue_array (readItems_chars items fuel rest (by omega))
  | .object members =>
    rw [chars, List.length_cons] at enough
    rw [chars, List.cons_append]
    exact readValue_object (readMembers_chars members fuel rest (by omega))
termination_by structural j

theorem readItems_chars (items : List Json) (fuel : Nat) (rest : List Char)
    (enough : 2 * (itemsChars items).length + 1 ≤ fuel) :
    readItems fuel (itemsChars items ++ rest) = some (items, rest) := by
  obtain ⟨fuel, rfl⟩ : ∃ f, fuel = f + 1 := ⟨fuel - 1, by omega⟩
  match items with
  | [] => rfl
  | item :: items =>
    have := length_chars_pos item
    rw [itemsChars, List.length_append] at enough
    have value := readValue_chars item fuel _ (by omega) (moreItemsChars_ends items rest)
    have more := readMoreItems_chars items fuel rest (by omega)
    rw [itemsChars, List.append_assoc]
    exact readItems_step value more
termination_by structural items

theorem readMoreItems_chars (items : List Json) (fuel : Nat) (rest : List Char)
    (enough : 2 * (moreItemsChars items).length ≤ fuel) :
    readMoreItems fuel (moreItemsChars items ++ rest) = some (items, rest) := by
  match items with
  | [] =>
    obtain ⟨fuel, rfl⟩ : ∃ f, fuel = f + 1 :=
      ⟨fuel - 1, by rw [moreItemsChars, List.length_singleton] at enough; omega⟩
    rfl
  | item :: items =>
    rw [moreItemsChars, List.length_cons, List.length_append] at enough
    obtain ⟨fuel, rfl⟩ : ∃ f, fuel = f + 1 := ⟨fuel - 1, by omega⟩
    have value := readValue_chars item fuel _ (by omega) (moreItemsChars_ends items rest)
    have more := readMoreItems_chars items fuel rest (by omega)
    rw [moreItemsChars, List.cons_append, List.append_assoc]
    exact readMoreItems_step value more
termination_by structural items

theorem readMembers_chars (members : List (Option String × Json)) (fuel : Nat) (rest : List Char)
    (enough : 2 * (membersChars members).length + 1 ≤ fuel) :
    readMembers fuel (membersChars members ++ rest) = some (members, rest) := by
  obtain ⟨fuel, rfl⟩ : ∃ f, fuel = f + 1 := ⟨fuel - 1, by omega⟩
  match members with
  | [] => rfl
  | (name, value) :: members =>
    rw [membersChars, List.length_append, List.length_cons, List.length_append] at enough
    have := length_quoted_pos name
    obtain ⟨fuel, rfl⟩ : ∃ f, fuel = f + 1 := ⟨fuel - 1, by omega⟩
    have head := readValue_chars value fuel _ (by omega) (moreMembersChars_ends members rest)
    have more := readMoreMembers_chars members (fuel + 1) rest (by omega)
    rw [membersChars, List.append_assoc, List.cons_append, List.append_assoc]
    exact readMembers_step (readMember_step head) more
termination_by structural members

theorem readMoreMembers_chars (members : List (Option String × Json)) (fuel : Nat)
    (rest : List Char) (enough : 2 * (moreMembersChars members).length ≤ fuel) :
    readMoreMembers fuel (moreMembersChars members ++ rest) = some (members, rest) := by
  match members with
  | [] =>
    obtain ⟨fuel, rfl⟩ : ∃ f, fuel = f + 1 :=
      ⟨fuel - 1, by rw [moreMembersChars, List.length_singleton] at enough; omega⟩
    rfl
  | (name, value) :: members =>
    rw [moreMembersChars, List.length_cons, List.length_append, List.length_cons,
      List.length_append] at enough
    obtain ⟨fuel, rfl⟩ : ∃ f, fuel = f + 2 := ⟨fuel - 2, by omega⟩
    have head := readValue_chars value fuel _ (by omega) (moreMembersChars_ends members rest)
    have more := readMoreMembers_chars members (fuel + 1) rest (by omega)
    rw [moreMembersChars, List.cons_append, List.append_assoc, List.cons_append, List.append_assoc]
    exact readMoreMembers_step (readMember_step head) more
termination_by structural members

end

/-- Parsing the printed form of a value gives the value. -/
theorem parse_print (j : Json) : parse j.print = some j := by
  have whole := readValue_chars j (2 * j.chars.length + 2) [] (by omega) fun _ _ h =>
    absurd h (List.cons_ne_nil _ _).symm
  rw [List.append_nil] at whole
  simp only [parse, print, String.toList_ofList, whole]
  rfl

end Json

end Matchmaking
