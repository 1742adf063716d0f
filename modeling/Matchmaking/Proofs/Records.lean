import Matchmaking.JoinRequest
import Matchmaking.Proofs.JsonText

/-!
# Records read back

The text of a stored record describes the record it was written for
(`deserialize_serialize`).  This holds for every member, party and request of a
player.  The request of a party carries a score, which is written as a decimal;
it reads back exactly if its score does (`Score.ReadsBack`).
-/

namespace Matchmaking

/-! ## Fields -/

namespace Json

theorem namedMembers_map (members : List (String × Json)) :
    namedMembers (members.map fun (name, value) => (some name, value)) = some members := by
  induction members with
  | nil => rfl
  | cons member members ih =>
    rw [List.map_cons, namedMembers, ih]
    rfl

theorem fields?_record (names : List String) (members : List (String × Json)) :
    (record members).fields? names = names.mapM (field? members) := by
  rw [record, fields?, namedMembers_map]
  rfl

/-- A printed map adds its fields in order. -/
theorem textMembers_record (into : TextMap) (fields : List (String × String)) :
    textMembers into ((fields.map fun (name, value) => (name, text value)).map
      fun (name, value) => (some name, value)) = some (into.setAll fields) := by
  induction fields generalizing into with
  | nil => rfl
  | cons field fields ih =>
    rw [List.map_cons, List.map_cons]
    exact ih _

/-- A map is what its own fields make of the empty map. -/
theorem setAll_toList (m : TextMap) : TextMap.setAll ∅ m.toList = m := by
  have listed : TextMap.setAll ∅ m.toList = Std.ExtTreeMap.ofList m.toList compare :=
    Std.ExtTreeMap.ofList_eq_foldl.symm
  rw [listed]
  apply Std.ExtTreeMap.ext_getElem?
  intro k
  cases h : m[k]? with
  | some v =>
    exact Std.ExtTreeMap.getElem?_ofList_of_mem Std.ReflCmp.compare_self
      Std.ExtTreeMap.distinct_keys_toList (Std.ExtTreeMap.mem_toList_iff_getElem?_eq_some.2 h)
  | none =>
    refine Std.ExtTreeMap.getElem?_ofList_of_contains_eq_false ?_
    rw [Std.ExtTreeMap.map_fst_toList_eq_keys, List.contains_eq_mem, decide_eq_false_iff_not,
      Std.ExtTreeMap.mem_keys]
    intro mem
    rw [Std.ExtTreeMap.mem_iff_isSome_getElem?, h] at mem
    contradiction

theorem textMap?_ofTextMap (m : TextMap) : (ofTextMap m).textMap? = some m := by
  rw [ofTextMap, record, textMap?, textMembers_record, setAll_toList]

theorem optionalText?_ofOptionalText (s : Option String) :
    optionalText? (some (ofOptionalText s)) = some s := by
  cases s <;> rfl

end Json

/-! ## Records -/

theorem Member.ofJson?_toJson (m : Member) : ofJson? m.toJson = some m := by
  rw [ofJson?, toJson, Json.fields?_record]
  simp [Json.field?, Json.text?, Json.text]

theorem Phase.ofName?_name (p : Phase) : ofName? p.name = some p := by
  cases p <;> decide

theorem MatchState.ofName?_name (s : MatchState) : ofName? s.name = some s := by
  cases s <;> decide

theorem Json.natBelow?_nat (n : UInt32) : (nat n.toNat).natBelow? UInt32.size = some n.toNat := by
  have := n.toNat_lt
  rw [nat, natBelow?, Numeral.ofNat, Numeral.natural?]
  simp [Numeral.isPlain, UInt32.size]
  omega

theorem Party.ofJson?_toJson (p : Party) : ofJson? p.toJson = some p := by
  rw [ofJson?, toJson, Json.fields?_record]
  simp [fieldNames, Json.field?, Json.text?, Json.text, Json.natBelow?_nat,
    Json.textMap?_ofTextMap, Json.tag?, Phase.ofName?_name]

theorem PlayerRequest.ofJson?_toJson (r : PlayerRequest) : ofJson? r.toJson = some r := by
  rw [ofJson?, toJson, Json.fields?_record]
  simp [Json.field?, Json.text?, Json.text, Json.textMap?_ofTextMap, Json.tag?,
    MatchState.ofName?_name, Json.optionalText?_ofOptionalText]

/-- The stored form of the score describes the score. -/
def Score.ReadsBack (s : Score) : Prop := s.numeral?.bind ofNumeral = some s

theorem Json.score?_ofScore {s : Score} (h : s.ReadsBack) : (ofScore s).score? = some s := by
  unfold Score.ReadsBack at h
  rw [ofScore]
  cases n : s.numeral? with
  | none =>
    rw [n] at h
    contradiction
  | some n' =>
    rw [n] at h
    exact h

theorem PartyRequest.ofJson?_toJson {r : PartyRequest} (h : r.score.ReadsBack) :
    ofJson? r.toJson = some r := by
  rw [ofJson?, toJson, Json.fields?_record]
  simp [Json.field?, Json.text?, Json.text, Json.textMap?_ofTextMap, Party.ofJson?_toJson,
    Json.score?_ofScore h]

/-! ## Entries -/

/-- The record is what its JSON value describes. -/
def Readable {α : Type} [Record α] (record : α) : Prop :=
  ∃ json, Record.encode record = some json ∧ Record.decode json = some record

theorem Member.readable (m : Member) : Readable m := ⟨m.toJson, rfl, m.ofJson?_toJson⟩

theorem Party.readable (p : Party) : Readable p := ⟨p.toJson, rfl, p.ofJson?_toJson⟩

theorem PlayerRequest.readable (r : PlayerRequest) : Readable r :=
  ⟨r.toJson, rfl, r.ofJson?_toJson⟩

theorem PartyRequest.readable {r : PartyRequest} (h : r.score.ReadsBack) : Readable r :=
  ⟨r.toJson, rfl, ofJson?_toJson h⟩

theorem Json.print_ne_empty (json : Json) : json.print ≠ "" := by
  intro empty
  have := json.length_chars_pos
  have chars : json.chars = [] := String.toList_ofList.symm.trans (congrArg String.toList empty)
  rw [chars] at this
  exact absurd this (by decide)

/-- A printed JSON value describes the record that the value describes. -/
theorem Entry.deserialize_print {α : Type} [Record α] {record : α} {json : Json}
    (decoded : Record.decode json = some record) :
    deserialize json.print = .ok ⟨record, some json.print⟩ := by
  rw [deserialize, Json.parse_print, Option.bind_some, decoded]

/-- The text of a readable record is not empty and describes the record. -/
theorem Entry.deserialize_serialize {α : Type} [Record α] {e : Entry α} (h : Readable e.record) :
    ∃ text, e.serialize = .ok text ∧ text ≠ "" ∧
      (deserialize text : Except StoreError (Entry α)) = .ok ⟨e.record, some text⟩ := by
  obtain ⟨json, encoded, decoded⟩ := h
  refine ⟨json.print, ?_, json.print_ne_empty, deserialize_print decoded⟩
  rw [serialize, encoded]

end Matchmaking
