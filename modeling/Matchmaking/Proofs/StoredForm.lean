import Matchmaking.Proofs.WholeScores

/-!
# The stored form of records

The text of a record is laid out here apart from JSON values.  An object is its
fields in the order of their declaration, without blanks.  A string stands in
quotes with its characters escaped one by one.  Seven characters have an escape
of two characters, the other control characters are written by their number in
four lower-case hexadecimal digits, and everything else stands as it is.  A map
is an object in the order of its names.  What is absent is `null`.

A stored record is this text whatever the record was read from, and the text
reads back as the record with the whole text as its origin (`StoredAs`).  This
holds of every member, party and request of a player, and of every request of a
party whose score reads back.
-/

namespace Matchmaking

namespace Layout

/-! ## Layouts -/

/-- The characters with a short escape, each with the letter behind its backslash. -/
def shortEscapes : List (Char × Char) :=
  [('"', '"'), ('\\', '\\'), ('\x08', 'b'), ('\t', 't'), ('\n', 'n'), ('\x0c', 'f'), ('\r', 'r')]

/-- One character inside a string. -/
def character (c : Char) : String :=
  match shortEscapes.lookup c with
  | some letter => String.ofList ['\\', letter]
  | none =>
    if c < ' ' then "\\u" ++ String.ofList ((Nat.toDigits 16 c.toNat).leftpad 4 '0')
    else String.ofList [c]

/-- A string in its quotes. -/
def quote (s : String) : String := "\"" ++ String.join (s.toList.map character) ++ "\""

/-- An object with the texts of its fields. -/
def object (fields : List (String × String)) : String :=
  "\x7b" ++ ",".intercalate (fields.map fun field => quote field.1 ++ ":" ++ field.2) ++ "\x7d"

/-- A map as an object in the order of its names. -/
def textMap (m : TextMap) : String := object (m.toList.map fun field => (field.1, quote field.2))

/-- A string, or `null`. -/
def optional : Option String → String
  | some s => quote s
  | none => "null"

/-- The shortest decimal of a score, or `null` if it has none. -/
def score (s : Score) : String :=
  match s.numeral? with
  | some n => String.ofList n.chars
  | none => "null"

/-- The stored text of a member. -/
def member (m : Member) : String := object [("id", quote m.id), ("party_id", quote m.party)]

/-- The stored text of a party. -/
def party (p : Party) : String :=
  object [("id", quote p.id), ("leader_player_id", quote p.leader),
    ("leader_pit", quote p.leaderToken), ("min_members", toString p.minMembers.toNat),
    ("max_members", toString p.maxMembers.toNat), ("member_id_to_pit", textMap p.members),
    ("current_phase", quote p.phase.name)]

/-- The stored text of a party's request. -/
def partyRequest (r : PartyRequest) : String :=
  object [("id", quote r.id), ("party", party r.party),
    ("matchmaking_type", quote r.matchmakingType), ("metadata", textMap r.metadata),
    ("score", score r.score)]

/-- The stored text of a player's request. -/
def playerRequest (r : PlayerRequest) : String :=
  object [("id", quote r.id), ("player_identity_token", quote r.token),
    ("matchmaking_type", quote r.matchmakingType), ("metadata", textMap r.metadata),
    ("state", quote r.state.name), ("deployment_id", optional r.deploymentId),
    ("deployment_name", optional r.deploymentName)]

/-! ## Printed values are laid out -/

theorem toList_print (j : Json) : j.print.toList = j.chars := String.toList_ofList

theorem character_control :
    ∀ n < 32, (character (Char.ofNat n)).toList = Json.escape (Char.ofNat n) := by
  decide +kernel

/-- A character is escaped as it is laid out. -/
theorem toList_character (c : Char) : (character c).toList = Json.escape c := by
  by_cases control : c.toNat < 32
  · have := character_control c.toNat control
    rwa [Char.ofNat_toNat] at this
  · have bright : ¬ c < ' ' := control
    unfold Json.escape
    split
    next h => subst h; rfl
    split
    next h => subst h; rfl
    split
    next h => subst h; rfl
    split
    next h => subst h; rfl
    split
    next h => subst h; rfl
    split
    next h => subst h; rfl
    split
    next h => subst h; rfl
    next =>
      have long : shortEscapes.lookup c = none :=
        List.lookup_eq_none_iff.2 (by simp [shortEscapes, *])
      rw [character, long]
      simp only [if_neg bright, String.toList_ofList]

theorem toList_join_character (cs : List Char) :
    (String.join (cs.map character)).toList ++ ['"'] = Json.escaped cs := by
  induction cs with
  | nil => rfl
  | cons c cs ih =>
    rw [String.toList_join, List.map_cons, List.flatMap_cons, ← String.toList_join,
      toList_character, List.append_assoc, ih, Json.escaped]

theorem toList_quote (s : String) : (quote s).toList = Json.quoted (some s) := by
  have mark : "\"".toList = ['"'] := by decide
  unfold quote Json.quoted
  simp only [String.toList_append, mark, List.append_assoc]
  rw [toList_join_character, List.singleton_append]

theorem print_text (s : String) : (Json.text s).print = quote s := by
  rw [← String.toList_inj, toList_print, toList_quote, Json.text, Json.chars]

theorem toChar_ofNat : ∀ n < 10, Digit.toChar (Fin.ofNat 10 n) = n.digitChar := by
  decide

theorem natChars_eq (n : Nat) : Numeral.natChars n = Nat.toDigits 10 n := by
  induction n using Nat.strongRecOn with
  | ind n ih =>
    rw [Numeral.natChars, Digit.ofNat, Nat.toDigits_eq_if (by decide)]
    split
    next small => rw [List.map_singleton, toChar_ofNat n small]
    next large =>
      have last : Digit.toChar (Fin.ofNat 10 n) = (n % 10).digitChar := by
        rw [← toChar_ofNat (n % 10) (Nat.mod_lt _ (by decide))]
        exact congrArg Digit.toChar (Fin.ext (Nat.mod_mod n 10).symm)
      rw [List.map_append, ← Numeral.natChars, ih (n / 10) (by omega), List.map_singleton, last]

theorem print_nat (n : Nat) : (Json.nat n).print = toString n := by
  rw [← String.toList_inj, toList_print, Json.nat, Json.chars, Nat.toString_eq_repr,
    Nat.toList_repr, ← natChars_eq]
  simp [Numeral.chars, Numeral.ofNat, Numeral.fractionChars, Numeral.exponentChars]

theorem print_ofScore (s : Score) : (Json.ofScore s).print = score s := by
  rw [← String.toList_inj, toList_print, Json.ofScore, score]
  cases s.numeral? with
  | none => rw [Json.chars]; decide
  | some n => rw [Json.chars, String.toList_ofList]

theorem print_ofOptionalText (s : Option String) :
    (Json.ofOptionalText s).print = optional s := by
  cases s with
  | none => rw [← String.toList_inj, toList_print, Json.ofOptionalText, Json.chars]; decide
  | some s => exact print_text s

/-- The members of a record are its fields with commas between them. -/
theorem membersChars_eq (fields : List (String × Json)) :
    Json.membersChars (fields.map fun (name, value) => (some name, value)) =
      [','].intercalate (fields.map fun field => Json.quoted (some field.1) ++ ':' :: field.2.chars)
        ++ ['}'] := by
  induction fields with
  | nil => rfl
  | cons field fields ih =>
    cases fields with
    | nil => simp [Json.membersChars, Json.moreMembersChars]
    | cons next fields =>
      simp only [List.map_cons, List.intercalate_cons_cons, List.append_assoc] at ih ⊢
      rw [← ih]
      simp [Json.membersChars, Json.moreMembersChars]

/-- A record is laid out field by field. -/
theorem print_record (fields : List (String × Json)) :
    (Json.record fields).print = object (fields.map fun field => (field.1, field.2.print)) := by
  have opening : "\x7b".toList = ['{'] := by decide
  have closing : "\x7d".toList = ['}'] := by decide
  have colon : ":".toList = [':'] := by decide
  have comma : ",".toList = [','] := by decide
  rw [← String.toList_inj, toList_print, Json.record, Json.chars, membersChars_eq, object]
  simp [toList_quote, toList_print, opening, closing, colon, comma, Function.comp_def]

theorem print_ofTextMap (m : TextMap) : (Json.ofTextMap m).print = textMap m := by
  rw [Json.ofTextMap, print_record, textMap, List.map_map]
  congr 2
  funext field
  exact congrArg (field.1, ·) (print_text field.2)

theorem print_member (m : Member) : m.toJson.print = member m := by
  simp [Member.toJson, member, print_record, print_text]

theorem print_party (p : Party) : p.toJson.print = party p := by
  simp only [Party.toJson, party, print_record, print_text, print_nat, print_ofTextMap,
    List.map_cons, List.map_nil]

theorem print_partyRequest (r : PartyRequest) : r.toJson.print = partyRequest r := by
  simp only [PartyRequest.toJson, partyRequest, print_record, print_text, print_party,
    print_ofTextMap, print_ofScore, List.map_cons, List.map_nil]

theorem print_playerRequest (r : PlayerRequest) : r.toJson.print = playerRequest r := by
  simp only [PlayerRequest.toJson, playerRequest, print_record, print_text, print_ofTextMap,
    print_ofOptionalText, List.map_cons, List.map_nil]

end Layout

/-! ## Stored records read back -/

/-- The entries of a record are stored as a text, and the text describes the record. -/
structure StoredAs {α : Type} [Record α] (record : α) (text : String) : Prop where
  /-- The text is written whatever the record was read from. -/
  written : ∀ previous, (⟨record, previous⟩ : Entry α).serialize = .ok text
  /-- The text is read as the record, and is its origin. -/
  read : (Entry.deserialize text : Except StoreError (Entry α)) = .ok ⟨record, some text⟩
  /-- What is read is written as the same text. -/
  again : ∀ e : Entry α, Entry.deserialize text = .ok e → e.serialize = .ok text

theorem Entry.storedAs {α : Type} [Record α] {record : α} {json : Json}
    (encoded : Record.encode record = some json) (decoded : Record.decode json = some record) :
    StoredAs record json.print := by
  have written (previous : Option String) :
      (⟨record, previous⟩ : Entry α).serialize = .ok json.print := by rw [serialize, encoded]
  refine ⟨written, deserialize_print decoded, fun e found => ?_⟩
  rw [deserialize_print decoded] at found
  obtain rfl := Except.ok.inj found
  exact written _

/-- Members, parties and requests of players are stored as they are laid out and read back, for
all texts, maps, bounds, phases and states.  So are requests of parties whose score reads back,
and they are stored without the text that their party was read from. -/
theorem records_stored_as_laid_out :
    (∀ m : Member, StoredAs m (Layout.member m)) ∧
    (∀ p : Party, StoredAs p (Layout.party p)) ∧
    (∀ r : PlayerRequest, StoredAs r (Layout.playerRequest r)) ∧
    (∀ (party : Entry Party) (id matchmakingType : String) (metadata : TextMap) (score : Score),
      score.ReadsBack →
      let r : PartyRequest := ⟨id, party.record, matchmakingType, metadata, score⟩
      StoredAs r (Layout.partyRequest r)) := by
  refine ⟨fun m => ?_, fun p => ?_, fun r => ?_, fun party id kind metadata score reads => ?_⟩
  · rw [← Layout.print_member]
    exact Entry.storedAs rfl m.ofJson?_toJson
  · rw [← Layout.print_party]
    exact Entry.storedAs rfl p.ofJson?_toJson
  · rw [← Layout.print_playerRequest]
    exact Entry.storedAs rfl r.ofJson?_toJson
  · intro r
    rw [← Layout.print_partyRequest]
    exact Entry.storedAs rfl (PartyRequest.ofJson?_toJson (r := r) reads)

/-- A request is stored with quotes, a backslash, control characters and letters beyond ASCII. -/
theorem request_with_escapes_stored :
    let party : Party :=
      ⟨"p", "\"é\"", "a\\b", 1, 4294967295, (∅ : TextMap).insert "\"é\"" "\n\x01\x7f", .matchmaking⟩
    let r : PartyRequest := ⟨"p", party, "duel", (∅ : TextMap).insert "z" "", .ofNat 1754000000001⟩
    r.score.ReadsBack ∧ StoredAs r ("\x7b\"id\":\"p\",\"party\":\x7b\"id\":\"p\"," ++
      "\"leader_player_id\":\"\\\"é\\\"\",\"leader_pit\":\"a\\\\b\",\"min_members\":1," ++
      "\"max_members\":4294967295,\"member_id_to_pit\":\x7b\"\\\"é\\\"\":\"\\n\\u0001\x7f\"\x7d," ++
      "\"current_phase\":\"Matchmaking\"\x7d,\"matchmaking_type\":\"duel\"," ++
      "\"metadata\":\x7b\"z\":\"\"\x7d,\"score\":1754000000001.0\x7d") := by
  intro party r
  have reads : r.score.ReadsBack := Score.readsBack_ofNat (by decide)
  have stored := records_stored_as_laid_out.2.2.2 ⟨party, none⟩ "p" "duel" r.metadata r.score reads
  refine ⟨reads, ?_⟩
  convert stored using 1
  decide +kernel

end Matchmaking
