import Matchmaking.Keyspace

/-!
# Collections of a keyspace

A key that holds nothing and a key that holds an empty collection are the same
thing.  The *views* of this module make that precise: an absent key shows an
empty sorted set, an empty hash and an empty list, and a key shows no collection
of another type than the one it holds.

A command on a collection is an edit of the view (`apply_snd`).  An edit that
leaves nothing removes the key, and one of a key of another type changes nothing.
-/

namespace Matchmaking

namespace TextMap

@[simp] theorem getElem?_insert (m : TextMap) (k v a : String) :
    (m.insert k v)[a]? = if k = a then some v else m[a]? := by
  rw [Std.ExtTreeMap.getElem?_insert]
  simp only [Std.LawfulEqOrd.compare_eq_iff_eq]

@[simp] theorem getElem?_erase (m : TextMap) (k a : String) :
    (m.erase k)[a]? = if k = a then none else m[a]? := by
  rw [Std.ExtTreeMap.getElem?_erase]
  simp only [Std.LawfulEqOrd.compare_eq_iff_eq]

@[simp] theorem mem_insert {m : TextMap} {k v a : String} : a ∈ m.insert k v ↔ a = k ∨ a ∈ m := by
  rw [Std.ExtTreeMap.mem_insert, Std.LawfulEqOrd.compare_eq_iff_eq, eq_comm]

@[simp] theorem mem_erase {m : TextMap} {k a : String} : a ∈ m.erase k ↔ a ≠ k ∧ a ∈ m := by
  rw [Std.ExtTreeMap.mem_erase, Ne, Std.LawfulEqOrd.compare_eq_iff_eq, eq_comm]

theorem size_insert_new {m : TextMap} {k : String} (v : String) (new : k ∉ m) :
    (m.insert k v).size = m.size + 1 := by
  rw [Std.ExtTreeMap.size_insert, if_neg]
  rwa [Std.ExtTreeMap.contains_iff_mem]

end TextMap

namespace SortedSet

@[simp] theorem isEmpty_empty : empty.isEmpty := Std.ExtTreeMap.isEmpty_empty

@[simp] theorem erase_empty (member : String) : empty.erase member = empty := by
  simp only [erase, remove, empty, Std.ExtTreeMap.getElem?_empty]

@[simp] theorem first_empty (count : Nat) : empty.first count = [] := List.take_nil

@[simp] theorem dropFirst_empty (count : Nat) : empty.dropFirst count = empty := by
  simp only [dropFirst, first_empty, List.foldl_nil]
  rw [empty, List.drop_nil]

end SortedSet

namespace Keyspace

/-! ## Reading after writing -/

@[simp] theorem getElem?_insert (ks : Keyspace) (k a : Key) (v : Value) :
    (ks.insert k v)[a]? = if k = a then some v else ks[a]? := by
  rw [Std.ExtTreeMap.getElem?_insert]
  simp only [Std.LawfulEqOrd.compare_eq_iff_eq]

@[simp] theorem getElem?_erase (ks : Keyspace) (k a : Key) :
    (ks.erase k)[a]? = if k = a then none else ks[a]? := by
  rw [Std.ExtTreeMap.getElem?_erase]
  simp only [Std.LawfulEqOrd.compare_eq_iff_eq]

@[simp] theorem getElem?_put (ks : Keyspace) (k a : Key) (v : Value) :
    (ks.put k v)[a]? =
      if k = a then (if v.isEmptyCollection then none else some v) else ks[a]? := by
  unfold put
  split
  · rw [getElem?_erase]
  · rw [getElem?_insert]

theorem contains_eq (ks : Keyspace) (k : Key) : ks.contains k = ks[k]?.isSome :=
  Std.ExtTreeMap.contains_eq_isSome_getElem?

/-- Removing an absent key changes nothing. -/
theorem erase_absent {ks : Keyspace} {k : Key} (h : ks[k]? = none) : ks.erase k = ks := by
  apply Std.ExtTreeMap.ext_getElem?
  intro a
  rw [getElem?_erase]
  split
  next same =>
    subst same
    exact h.symm
  next => rfl

/-! ## Views -/

/-- The sorted set a key shows. -/
def sortedSetAt? (ks : Keyspace) (key : Key) : Option SortedSet :=
  match ks[key]? with
  | none => some .empty
  | some (.sortedSet set) => some set
  | some _ => none

/-- The hash a key shows. -/
def hashAt? (ks : Keyspace) (key : Key) : Option TextMap :=
  match ks[key]? with
  | none => some ∅
  | some (.hash fields) => some fields
  | some _ => none

/-- The list a key shows. -/
def listAt? (ks : Keyspace) (key : Key) : Option (List String) :=
  match ks[key]? with
  | none => some []
  | some (.list items) => some items
  | some _ => none

/-- A key that holds nothing of another type shows a sorted set. -/
theorem sortedSetAt?_of_type {ks : Keyspace} {key : Key}
    (typed : ∀ v, ks[key]? = some v → v.type = .sortedSet) :
    ∃ set, ks.sortedSetAt? key = some set := by
  unfold sortedSetAt?
  cases h : ks[key]? with
  | none => exact ⟨_, rfl⟩
  | some v =>
    have typed := typed v h
    cases v with
    | sortedSet set => exact ⟨set, rfl⟩
    | _ => contradiction

theorem sortedSetSize?_eq (ks : Keyspace) (key : Key) :
    ks.sortedSetSize? key = (ks.sortedSetAt? key).map (·.size) := by
  unfold sortedSetSize? sortedSetAt?
  cases ks[key]? with
  | none => rfl
  | some v => cases v <;> rfl

/-- Reading a sorted set that a key shows lists its members. -/
theorem members_eq {ks : Keyspace} {key : Key} {set : SortedSet}
    (shown : ks.sortedSetAt? key = some set) : ks.members key = .ok set.members := by
  unfold sortedSetAt? at shown
  unfold members
  cases stored : ks[key]? with
  | none =>
    rw [stored] at shown
    obtain rfl := Option.some.inj shown
    rfl
  | some v =>
    rw [stored] at shown
    cases v with
    | sortedSet set' =>
      obtain rfl := Option.some.inj shown
      rfl
    | _ => contradiction

theorem hashLength?_eq (ks : Keyspace) (key : Key) :
    ks.hashLength? key = (ks.hashAt? key).map (·.size) := by
  unfold hashLength? hashAt?
  cases ks[key]? with
  | none => rfl
  | some v => cases v <;> rfl

theorem listLength?_eq (ks : Keyspace) (key : Key) :
    ks.listLength? key = (ks.listAt? key).map (·.length) := by
  unfold listLength? listAt?
  cases ks[key]? with
  | none => rfl
  | some v => cases v <;> rfl

theorem field?_eq (ks : Keyspace) (key : Key) (field : String) :
    ks.field? key field = (ks.hashAt? key).bind (·[field]?) := by
  unfold field? hashAt?
  cases h : ks[key]? with
  | none => exact Std.ExtTreeMap.getElem?_empty.symm
  | some v => cases v <;> rfl

/-- Replaces the sorted set a key shows. -/
def editSet (ks : Keyspace) (key : Key) (f : SortedSet → SortedSet) : Keyspace :=
  match ks.sortedSetAt? key with
  | some set => ks.put key (.sortedSet (f set))
  | none => ks

/-- Replaces the hash a key shows. -/
def editHash (ks : Keyspace) (key : Key) (f : TextMap → TextMap) : Keyspace :=
  match ks.hashAt? key with
  | some fields => ks.put key (.hash (f fields))
  | none => ks

@[simp] theorem getElem?_editSet_of_ne {ks : Keyspace} {k a : Key} {f : SortedSet → SortedSet} (h : k ≠ a) :
    (ks.editSet k f)[a]? = ks[a]? := by
  unfold editSet
  cases ks.sortedSetAt? k with
  | none => rfl
  | some set => exact (getElem?_put ks k a _).trans (if_neg h)

@[simp] theorem getElem?_editHash_of_ne {ks : Keyspace} {k a : Key} {f : TextMap → TextMap} (h : k ≠ a) :
    (ks.editHash k f)[a]? = ks[a]? := by
  unfold editHash
  cases ks.hashAt? k with
  | none => rfl
  | some fields => exact (getElem?_put ks k a _).trans (if_neg h)

/-! ## Commands as edits -/

/-- What a command does to a keyspace, by views. -/
def edit (ks : Keyspace) : Command → Keyspace
  | .setString key value => ks.insert key (.string value)
  | .delete key => ks.erase key
  | .addMember key member => ks.editSet key (·.insert member)
  | .removeMember key member => ks.editSet key (·.erase member)
  | .popFirst key count => ks.editSet key (·.dropFirst count)
  | .setFields _ [] => ks
  | .setFields key updates => ks.editHash key (·.setAll updates)
  | .deleteField key field => ks.editHash key (·.erase field)

/-- What a command is answered, by views. -/
def answer (ks : Keyspace) : Command → Reply
  | .popFirst key count => .popped (((ks.sortedSetAt? key).map (·.first count)).getD [])
  | _ => .done

theorem setAll_ne_empty {m : TextMap} (h : m ≠ ∅) (updates : List (String × String)) :
    TextMap.setAll m updates ≠ ∅ := by
  induction updates generalizing m with
  | nil => exact h
  | cons update updates ih => exact ih Std.ExtTreeMap.insert_ne_empty

/-- A collection with an element stays where it is put. -/
theorem put_nonempty {ks : Keyspace} {key : Key} {v : Value} (h : v.isEmptyCollection = false) :
    ks.put key v = ks.insert key v := by
  simp only [put, h, Bool.false_eq_true, if_false]

/-- Putting an empty collection at an absent key changes nothing. -/
theorem put_empty_absent {ks : Keyspace} {key : Key} {v : Value} (hv : v.isEmptyCollection)
    (h : ks[key]? = none) : ks.put key v = ks := by
  rw [put, if_pos hv, erase_absent h]

theorem put_no_members {ks : Keyspace} {key : Key} (h : ks[key]? = none) :
    ks.put key (.sortedSet .empty) = ks :=
  put_empty_absent (v := .sortedSet .empty) SortedSet.isEmpty_empty h

theorem put_no_fields {ks : Keyspace} {key : Key} (h : ks[key]? = none) :
    ks.put key (.hash ∅) = ks :=
  put_empty_absent (v := .hash ∅) Std.ExtTreeMap.isEmpty_empty h

/-- An edit of an absent collection that leaves it empty changes nothing. -/
theorem editSet_absent {ks : Keyspace} {key : Key} {f : SortedSet → SortedSet}
    (h : ks[key]? = none) (empty : f .empty = .empty) : ks.editSet key f = ks := by
  rw [editSet, sortedSetAt?, h]
  dsimp only
  rw [empty, put_no_members h]

theorem editHash_absent {ks : Keyspace} {key : Key} {f : TextMap → TextMap}
    (h : ks[key]? = none) (empty : f ∅ = ∅) : ks.editHash key f = ks := by
  rw [editHash, hashAt?, h]
  dsimp only
  rw [empty, put_no_fields h]

theorem isEmptyCollection_insert (s : SortedSet) (m : ScoredMember) :
    (Value.sortedSet (s.insert m)).isEmptyCollection = false :=
  Std.ExtTreeMap.isEmpty_eq_false_iff.2 Std.ExtTreeMap.insert_ne_empty

theorem isEmptyCollection_setAll (m : TextMap) (update : String × String)
    (updates : List (String × String)) :
    (Value.hash (m.setAll (update :: updates))).isEmptyCollection = false :=
  Std.ExtTreeMap.isEmpty_eq_false_iff.2 (setAll_ne_empty Std.ExtTreeMap.insert_ne_empty updates)

/-- Applying a command gives its answer and makes its edit. -/
theorem apply_eq (ks : Keyspace) (command : Command) :
    ks.apply command = (ks.answer command, ks.edit command) := by
  cases command with
  | setString key value => rfl
  | delete key => rfl
  | addMember key member =>
    simp only [apply, answer, edit, editSet, sortedSetAt?]
    cases h : ks[key]? with
    | none => simp only [put_nonempty (isEmptyCollection_insert _ member)]
    | some v => cases v <;> simp only [put_nonempty (isEmptyCollection_insert _ member)]
  | removeMember key member =>
    simp only [apply, answer, edit, editSet, sortedSetAt?]
    cases h : ks[key]? with
    | none =>
      dsimp only
      exact congrArg (Prod.mk Reply.done) (put_no_members h).symm
    | some v => cases v <;> rfl
  | popFirst key count =>
    simp only [apply, answer, edit, editSet, sortedSetAt?]
    cases h : ks[key]? with
    | none =>
      dsimp only
      rw [SortedSet.dropFirst_empty, put_no_members h,
        Option.map_some, SortedSet.first_empty, Option.getD_some]
    | some v => cases v <;> rfl
  | setFields key updates =>
    cases updates with
    | nil => rfl
    | cons update updates =>
      simp only [apply, answer, edit, editHash, hashAt?, List.isEmpty_cons]
      cases h : ks[key]? with
      | none => simp [put_nonempty (isEmptyCollection_setAll _ update updates)]
      | some v => cases v <;> simp [put_nonempty (isEmptyCollection_setAll _ update updates)]
  | deleteField key field =>
    simp only [apply, answer, edit, editHash, hashAt?]
    cases h : ks[key]? with
    | none =>
      dsimp only
      rw [Std.ExtTreeMap.erase_empty, put_no_fields h]
    | some v => cases v <;> rfl

/-! ## Lists of commands -/

/-- The edits of commands in order. -/
def editAll (ks : Keyspace) (commands : List Command) : Keyspace := commands.foldl edit ks

@[simp] theorem editAll_nil (ks : Keyspace) : ks.editAll [] = ks := rfl

@[simp] theorem editAll_cons (ks : Keyspace) (command : Command) (commands : List Command) :
    ks.editAll (command :: commands) = (ks.edit command).editAll commands := rfl

theorem editAll_append (ks : Keyspace) (first second : List Command) :
    ks.editAll (first ++ second) = (ks.editAll first).editAll second :=
  List.foldl_append

/-- The answers of commands in order. -/
def answers (ks : Keyspace) : List Command → List Reply
  | [] => []
  | command :: commands => ks.answer command :: (ks.edit command).answers commands

@[simp] theorem length_answers (ks : Keyspace) (commands : List Command) :
    (ks.answers commands).length = commands.length := by
  induction commands generalizing ks with
  | nil => rfl
  | cons command commands ih => simp only [answers, List.length_cons, ih]

/-- The answer to a command in the middle is the one it gets where the commands in
front of it lead. -/
theorem answers_append_cons (ks : Keyspace) (first : List Command) (command : Command)
    (second : List Command) :
    (ks.answers (first ++ command :: second))[first.length]? =
      some ((ks.editAll first).answer command) := by
  induction first generalizing ks with
  | nil => rfl
  | cons c first ih =>
    simp only [List.cons_append, answers, List.length_cons, List.getElem?_cons_succ, editAll_cons]
    exact ih _

/-- Applying commands in order gives their answers and makes their edits. -/
theorem applyAll_eq (ks : Keyspace) (commands : List Command) :
    ks.applyAll commands = (ks.answers commands, ks.editAll commands) := by
  induction commands generalizing ks with
  | nil => rfl
  | cons command commands ih => simp only [applyAll, apply_eq, ih, answers, editAll_cons]

end Keyspace

end Matchmaking
