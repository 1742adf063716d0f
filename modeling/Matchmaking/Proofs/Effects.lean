import Matchmaking.Proofs.Solo
import Matchmaking.Proofs.Revisions

/-!
# Effects key by key

The effect of an operation is described by what it makes of the value at each key.
Changing a record rewrites the text that describes it (`Value.revise`), and putting a
member into a queue inserts it into the sorted set that the key shows
(`Value.enqueue`).  Both look at one value only.

Entries that were just read pass the check of an update.  Of the commands only those
on queues need a type, so one of them decides whether a batch fits.
-/

namespace Matchmaking

/-! ## Values -/

namespace Value

/-- What a key holds after the record that it describes has changed. -/
def revise {α : Type} [Record α] (f : α → α) : Option Value → Option Value
  | some (.string text) =>
    match (Entry.deserialize text : Except StoreError (Entry α)) with
    | .ok e =>
      match (e.modify f).serialize with
      | .ok text => some (.string text)
      | .error _ => some (.string text)
    | .error _ => some (.string text)
  | value => value

/-- What a key holds after a member was put into the sorted set that it shows. -/
def enqueue (m : ScoredMember) : Option Value → Option Value
  | none => some (.sortedSet (SortedSet.empty.insert m))
  | some (.sortedSet set) => some (.sortedSet (set.insert m))
  | some other => some other

end Value

namespace Keyspace

section

variable {α : Type} [Record α] {ks : Keyspace} {id : String} {f : α → α}

/-- Changing a stored record leaves the text of the changed record. -/
theorem revise_of_entry? {e : Entry α} (h : ks.entry? α id = some e) {text : String}
    (written : (e.modify f).serialize = .ok text) :
    Value.revise f ks[Key.entry α id]? = some (.string text) := by
  obtain ⟨old, stored, read⟩ := text_of_entry? h
  rw [stored, Value.revise, read]
  dsimp only
  rw [written]

/-- Where no record is stored, nothing changes. -/
theorem revise_of_not_entry? (h : ks.entry? α id = none) :
    Value.revise f ks[Key.entry α id]? = ks[Key.entry α id]? := by
  unfold entry? at h
  unfold Value.revise
  cases stored : ks[Key.entry α id]? with
  | none => rfl
  | some v =>
    rw [stored] at h
    cases v with
    | string old =>
      dsimp only at h ⊢
      cases read : (Entry.deserialize old : Except StoreError (Entry α)) with
      | error fault => rfl
      | ok e =>
        rw [read] at h
        contradiction
    | _ => rfl

end

theorem getElem?_editSet_insert (ks : Keyspace) (key : Key) (m : ScoredMember) :
    (ks.editSet key (·.insert m))[key]? = Value.enqueue m ks[key]? := by
  unfold editSet sortedSetAt?
  cases stored : ks[key]? with
  | none => simp [put_nonempty (isEmptyCollection_insert _ m), Value.enqueue]
  | some v =>
    cases v with
    | sortedSet set => simp [put_nonempty (isEmptyCollection_insert _ m), Value.enqueue]
    | _ => exact stored

/-- What a key holds that shows a sorted set after a member was put into it. -/
theorem enqueue_of_shown {ks : Keyspace} {key : Key} {set : SortedSet}
    (shown : ks.sortedSetAt? key = some set) (m : ScoredMember) :
    Value.enqueue m ks[key]? = some (.sortedSet (set.insert m)) := by
  unfold sortedSetAt? at shown
  cases stored : ks[key]? with
  | none =>
    rw [stored] at shown
    obtain rfl := Option.some.inj shown
    rfl
  | some v =>
    rw [stored] at shown
    cases v with
    | sortedSet set' =>
      obtain rfl := Option.some.inj shown
      rfl
    | _ => contradiction

/-! ## Keys that have to be absent -/

end Keyspace

/-- A draft that was written is there. -/
theorem Draft.getElem?_write {d : Draft} {text : String} (written : d.text = .ok text)
    (ks : Keyspace) : (d.write ks)[d.key]? = some (.string text) := by
  simp [write, written]

namespace Keyspace

/-! ## Updates of what was read -/

variable {α : Type} [Record α] {ks : Keyspace}

/-- An entry that is stored passes the check of an update. -/
theorem unchanged_of_entry? {id : String} {e : Entry α} (h : ks.entry? α id = some e) {d : Draft}
    (key : d.key = .entry α id) (previous : d.previous = e.previous) :
    (Requirement.present d.key).Holds ks ∧ (Requirement.unchanged d).Holds ks := by
  obtain ⟨text, stored, read⟩ := text_of_entry? h
  have there : ks[d.key]? = some (.string (d.previous.getD "")) := by
    rw [key, previous, Entry.previous_eq read]
    exact stored
  exact ⟨ne_of_eq_of_ne there (by simp), there⟩

/-- Entries that are stored pass the check of an update. -/
theorem holds_update_stored (own : ks.OwnIds α) {f : α → α}
    (ids : ∀ a, Record.id (f a) = Record.id a) (xs : List String) :
    ∀ r ∈ (Operation.update ((ks.stored α xs).map fun e => (e.modify f).draft)).requirements,
      r.Holds ks := by
  intro r hr
  obtain ⟨d, hd, hr⟩ := List.mem_flatMap.1 hr
  obtain ⟨e, he, rfl⟩ := List.mem_map.1 hd
  obtain ⟨x, -, found⟩ := mem_stored.1 he
  have key : (e.modify f).draft.key = .entry α x :=
    congrArg (Key.entry α) ((ids e.record).trans (own x e found))
  obtain ⟨present, unchanged⟩ := unchanged_of_entry? found key rfl
  rcases List.mem_cons.1 hr with rfl | hr
  · exact present
  · obtain rfl := List.mem_singleton.1 hr
    exact unchanged

/-- Updating what is stored under some ids changes these records and nothing else.  Other
keys may have changed in between. -/
theorem getElem?_update_stored (own : ks.OwnIds α) {f : α → α}
    (ids : ∀ a, Record.id (f a) = Record.id a)
    (written : ∀ a, ∃ json, Record.encode (f a) = some json) {xs : List String} {now : Keyspace}
    (same : ∀ x ∈ xs, now[Key.entry α x]? = ks[Key.entry α x]?) (key : Key) :
    ((Operation.update ((ks.stored α xs).map fun e => (e.modify f).draft)).effect now)[key]? =
      if key ∈ xs.map (Key.entry α) then Value.revise f now[key]? else now[key]? := by
  have text (e : Entry α) : ∃ text, (e.modify f).serialize = .ok text := by
    obtain ⟨json, encoded⟩ := written e.record
    refine ⟨json.print, ?_⟩
    rw [Entry.serialize, show Record.encode (e.modify f).record = some json from encoded]
  have texts : ∀ d ∈ (ks.stored α xs).map fun e => (e.modify f).draft, ∃ text, d.text = .ok text :=
    List.forall_mem_map.2 fun e _ => text e
  have own' {x : String} {e : Entry α} (found : ks.entry? α x = some e) :
      (e.modify f).draft.key = .entry α x :=
    congrArg (Key.entry α) ((ids e.record).trans (own x e found))
  rcases Operation.getElem?_update texts now key with ⟨others, unwritten⟩ | ⟨d, hd, here, wrote⟩
  · refine Eq.trans unwritten ?_
    split
    next among =>
      obtain ⟨x, hx, rfl⟩ := List.mem_map.1 among
      cases found : ks.entry? α x with
      | none => rw [same x hx, revise_of_not_entry? found]
      | some e =>
        have mem : e ∈ ks.stored α xs := mem_stored.2 ⟨x, hx, found⟩
        exact absurd (own' found) (others _ (List.mem_map_of_mem mem))
    next => rfl
  · obtain ⟨e, he, rfl⟩ := List.mem_map.1 hd
    obtain ⟨x, hx, found⟩ := mem_stored.1 he
    obtain ⟨text, written, there⟩ := wrote
    obtain rfl : Key.entry α x = key := (own' found).symm.trans here
    rw [if_pos (List.mem_map_of_mem hx), same x hx, revise_of_entry? found written]
    exact there

/-- Updating one entry that is stored changes its record and nothing else. -/
theorem getElem?_update_entry {id : String} {e : Entry α} (found : ks.entry? α id = some e)
    {f : α → α} (own : Record.id (f e.record) = id)
    (written : ∃ json, Record.encode (f e.record) = some json) {now : Keyspace}
    (same : now[Key.entry α id]? = ks[Key.entry α id]?) (key : Key) :
    ((Operation.update [(e.modify f).draft]).effect now)[key]? =
      if key = .entry α id then Value.revise f now[key]? else now[key]? := by
  have here : (e.modify f).draft.key = .entry α id := congrArg (Key.entry α) own
  split
  next at_key =>
    obtain ⟨json, encoded⟩ := written
    have text : (e.modify f).serialize = .ok json.print := by
      rw [Entry.serialize, show Record.encode (e.modify f).record = some json from encoded]
    rw [at_key, same, revise_of_entry? found text, ← here]
    exact Draft.getElem?_write (d := (e.modify f).draft) text now
  next other =>
    exact Operation.getElem?_write (fun back => other (back.symm.trans here)) now

/-! ## Commands that need no type -/

/-- Behind commands that need no type and leave its key alone, the last command fits if its
key has the type that it needs. -/
theorem firstMismatch_concat (ts : Types) {commands : List Command} {last : Command}
    (untyped : ∀ c ∈ commands, requiredType c = none)
    (apart : ∀ c ∈ commands, c.key ≠ last.key) :
    firstMismatch ts (commands ++ [last]) =
      (mismatch? (ts last.key) last).map fun type => (last.key, type) := by
  induction commands generalizing ts with
  | nil =>
    rw [List.nil_append, firstMismatch]
    cases mismatch? (ts last.key) last <;> rfl
  | cons c commands ih =>
    obtain ⟨here, rest⟩ := List.forall_mem_cons.1 untyped
    obtain ⟨other, others⟩ := List.forall_mem_cons.1 apart
    have fits : mismatch? (ts c.key) c = none := by
      unfold mismatch?
      rw [here]
      cases ts c.key <;> rfl
    have kept (type : Option ValueType) : ts.set c.key type last.key = ts last.key :=
      if_neg (Ne.symm other)
    rw [List.cons_append, firstMismatch, fits]
    exact (ih _ rest others).trans (by rw [kept])

/-- A member fits into a queue exactly if the key shows a sorted set. -/
theorem mismatch?_addMember (key : Key) (m : ScoredMember) :
    mismatch? (ks.types key) (.addMember key m) =
      if (ks.sortedSetAt? key).isSome then none else some .sortedSet := by
  unfold types sortedSetAt?
  cases ks[key]? with
  | none => rfl
  | some v => cases v <;> rfl

/-- So commands that write records and put a member into a queue at the end fit exactly if
the key shows a sorted set. -/
theorem firstMismatch_addMember {commands : List Command} {key : Key} {m : ScoredMember}
    (untyped : ∀ c ∈ commands, requiredType c = none) (apart : ∀ c ∈ commands, c.key ≠ key) :
    firstMismatch ks.types (commands ++ [.addMember key m]) =
      if (ks.sortedSetAt? key).isSome then none else some (key, .sortedSet) := by
  have concat : firstMismatch ks.types (commands ++ [.addMember key m]) =
      (mismatch? (ks.types key) (.addMember key m)).map fun type => (key, type) :=
    firstMismatch_concat ks.types untyped apart
  rw [concat, mismatch?_addMember]
  split <;> rfl

end Keyspace

end Matchmaking
