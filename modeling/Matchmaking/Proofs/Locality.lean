import Matchmaking.Proofs.Commit
import Matchmaking.Proofs.Queues

/-!
# What a batch looks at

A batch looks at the keys of its conditions and commands and at no others
(`Batch.keys`), and it changes keys of its commands only (`Batch.writes`).  So two
keyspaces that hold the same at these keys answer a batch alike, and it makes the same of
what they hold (`Keyspace.execute_congr`).

The type check follows the types of all keys, but it asks for those of the commands only.
It is therefore compared key by key (`firstMismatch_congr`).  The commands of a batch may
share keys among themselves, so a run of them is compared on all their keys at once
(`SameAt.edit`).

Batches that are independent of each other may change places: neither sees what the other
one wrote.
-/

namespace Matchmaking

namespace Batch

/-- The keys that a batch writes. -/
def writes (b : Batch) : List Key := b.commands.map Command.key

/-- The keys that a batch names. -/
def keys (b : Batch) : List Key := b.conditions.map Condition.key ++ b.writes

/-- Neither of two batches writes a key that the other one names. -/
structure Independent (a b : Batch) : Prop where
  /-- The second batch does not name what the first one writes. -/
  unseen : ∀ key ∈ a.writes, key ∉ b.keys
  /-- The first batch does not name what the second one writes. -/
  unseeing : ∀ key ∈ b.writes, key ∉ a.keys

theorem Independent.symm {a b : Batch} (h : a.Independent b) : b.Independent a :=
  ⟨h.unseeing, h.unseen⟩

end Batch

namespace Keyspace

/-- Two keyspaces hold the same at some keys. -/
def SameAt (keys : List Key) (ks ks' : Keyspace) : Prop := ∀ key ∈ keys, ks'[key]? = ks[key]?

variable {ks ks' : Keyspace} {key : Key}

/-! ## Conditions -/

theorem hashAt?_congr (same : ks'[key]? = ks[key]?) : ks'.hashAt? key = ks.hashAt? key := by
  rw [hashAt?, same]
  rfl

theorem listAt?_congr (same : ks'[key]? = ks[key]?) : ks'.listAt? key = ks.listAt? key := by
  rw [listAt?, same]
  rfl

/-- A condition looks at its key. -/
theorem holds_congr {condition : Condition} (same : ks'[condition.key]? = ks[condition.key]?) :
    ks'.holds condition = ks.holds condition := by
  cases condition with
  | keyExists key | keyNotExists key | stringEqual key value =>
    simp only [Condition.key] at same
    simp only [holds, contains_eq, same]
  | hashLengthEqual key length =>
    have shown : ks'.hashAt? key = ks.hashAt? key := hashAt?_congr same
    simp only [holds, hashLength?_eq, shown]
  | listLengthEqual key length =>
    have shown : ks'.listAt? key = ks.listAt? key := listAt?_congr same
    simp only [holds, listLength?_eq, shown]
  | sortedSetLonger key length =>
    have shown : ks'.sortedSetAt? key = ks.sortedSetAt? key := sortedSetAt?_congr same
    simp only [holds, sortedSetSize?_eq, shown]
  | fieldExists key field | fieldNotExists key field | fieldEqual key field value
    | fieldNotEqual key field value =>
    have shown : ks'.hashAt? key = ks.hashAt? key := hashAt?_congr same
    simp only [holds, field?_eq, shown]

theorem SameAt.map_holds {conditions : List Condition}
    (same : SameAt (conditions.map Condition.key) ks ks') :
    conditions.map ks'.holds = conditions.map ks.holds :=
  List.map_congr_left fun _ mem => holds_congr (same _ (List.mem_map_of_mem mem))

/-! ## The type check -/

theorem types_congr (same : ks'[key]? = ks[key]?) : ks'.types key = ks.types key := by
  rw [types, types, same]

/-- The type check asks for the types of the commands' keys. -/
theorem firstMismatch_congr {ts ts' : Types} {commands : List Command}
    (same : ∀ command ∈ commands, ts' command.key = ts command.key) :
    firstMismatch ts' commands = firstMismatch ts commands := by
  induction commands generalizing ts ts' with
  | nil => rfl
  | cons command commands ih =>
    obtain ⟨here, rest⟩ := List.forall_mem_cons.1 same
    have later : ∀ c ∈ commands,
        ts'.set command.key (typeAfter (ts command.key) command) c.key =
          ts.set command.key (typeAfter (ts command.key) command) c.key := by
      intro c hc
      unfold Types.set
      split
      · rfl
      · exact rest c hc
    rw [firstMismatch, firstMismatch, here, ih later]

/-! ## Commands -/

/-- A command is answered by what its key holds. -/
theorem answer_congr {command : Command} (same : ks'[command.key]? = ks[command.key]?) :
    ks'.answer command = ks.answer command := by
  cases command with
  | popFirst key count =>
    have same : ks'[key]? = ks[key]? := same
    rw [answer, answer, sortedSetAt?_congr same]
  | _ => rfl

theorem getElem?_editSet_congr (same : ks'[key]? = ks[key]?) (f : SortedSet → SortedSet) :
    (ks'.editSet key f)[key]? = (ks.editSet key f)[key]? := by
  unfold editSet
  rw [sortedSetAt?_congr same]
  cases ks.sortedSetAt? key with
  | none => exact same
  | some set => simp

theorem getElem?_editHash_congr (same : ks'[key]? = ks[key]?) (f : TextMap → TextMap) :
    (ks'.editHash key f)[key]? = (ks.editHash key f)[key]? := by
  unfold editHash
  rw [hashAt?_congr same]
  cases ks.hashAt? key with
  | none => exact same
  | some fields => simp

/-- What a command leaves at its key depends on what the key held. -/
theorem getElem?_edit_congr {command : Command}
    (same : ks'[command.key]? = ks[command.key]?) :
    (ks'.edit command)[command.key]? = (ks.edit command)[command.key]? := by
  cases command with
  | setString key value =>
    have (ks : Keyspace) : (ks.insert key (.string value))[key]? = some (.string value) := by simp
    exact (this ks').trans (this ks).symm
  | delete key =>
    have (ks : Keyspace) : (ks.erase key)[key]? = none := by simp
    exact (this ks').trans (this ks).symm
  | addMember key member => exact getElem?_editSet_congr same _
  | removeMember key member => exact getElem?_editSet_congr same _
  | popFirst key count => exact getElem?_editSet_congr same _
  | setFields key updates =>
    cases updates with
    | nil => exact same
    | cons update updates => exact getElem?_editHash_congr same _
  | deleteField key field => exact getElem?_editHash_congr same _

/-- Keyspaces that hold the same at a command's key and at others do so afterwards. -/
theorem SameAt.edit {keys : List Key} {command : Command} (same : SameAt keys ks ks')
    (here : ks'[command.key]? = ks[command.key]?) :
    SameAt keys (ks.edit command) (ks'.edit command) := by
  intro key mem
  by_cases own : command.key = key
  · subst own
    exact getElem?_edit_congr here
  · rw [getElem?_edit_of_ne own, getElem?_edit_of_ne own]
    exact same key mem

/-- Commands are answered alike where their keys hold the same, and leave the same there
and wherever else the keyspaces did not differ. -/
theorem SameAt.editAll {keys : List Key} {commands : List Command} (same : SameAt keys ks ks')
    (named : ∀ command ∈ commands, command.key ∈ keys) :
    ks'.answers commands = ks.answers commands ∧
      SameAt keys (ks.editAll commands) (ks'.editAll commands) := by
  induction commands generalizing ks ks' with
  | nil => exact ⟨rfl, same⟩
  | cons command commands ih =>
    obtain ⟨here, rest⟩ := List.forall_mem_cons.1 named
    have own := same command.key here
    obtain ⟨answers, left⟩ := ih (same.edit own) rest
    refine ⟨?_, left⟩
    rw [Keyspace.answers, Keyspace.answers, answer_congr own, answers]

/-- Commands leave the keys alone that none of them names. -/
theorem getElem?_editAll_of_ne {commands : List Command}
    (other : ∀ command ∈ commands, command.key ≠ key) :
    (ks.editAll commands)[key]? = ks[key]? := by
  induction commands generalizing ks with
  | nil => rfl
  | cons command commands ih =>
    obtain ⟨here, rest⟩ := List.forall_mem_cons.1 other
    rw [editAll_cons, ih rest, getElem?_edit_of_ne here]

/-! ## Batches -/

/-- A batch leaves the keys alone that it does not write. -/
theorem getElem?_execute_of_not_mem {b : Batch} (unwritten : key ∉ b.writes) :
    (ks.execute b).2[key]? = ks[key]? := by
  have other : ∀ command ∈ b.commands, command.key ≠ key := by
    rintro command mem rfl
    exact unwritten (List.mem_map_of_mem mem)
  unfold execute
  dsimp only
  split
  · split
    · rfl
    · rw [applyAll_eq]
      exact getElem?_editAll_of_ne other
  · rfl

/-- A batch is answered alike where the keys that it names hold the same, and leaves the
same there and wherever else the keyspaces did not differ. -/
theorem execute_congr {b : Batch} (same : SameAt b.keys ks ks') :
    (ks'.execute b).1 = (ks.execute b).1 ∧
      ∀ key : Key, ks'[key]? = ks[key]? → (ks'.execute b).2[key]? = (ks.execute b).2[key]? := by
  have written : SameAt b.writes ks ks' := fun key mem => same key (List.mem_append_right _ mem)
  have held : b.conditions.map ks'.holds = b.conditions.map ks.holds :=
    SameAt.map_holds fun key mem => same key (List.mem_append_left _ mem)
  have checked : firstMismatch ks'.types b.commands = firstMismatch ks.types b.commands :=
    firstMismatch_congr fun command mem => types_congr (written _ (List.mem_map_of_mem mem))
  unfold execute
  rw [held, checked]
  dsimp only
  split
  · split
    · exact ⟨rfl, fun key here => here⟩
    · simp only [applyAll_eq]
      have answered := written.editAll fun command mem => List.mem_map_of_mem mem
      refine ⟨congrArg (fun replies => Except.ok (Outcome.committed replies)) answered.1,
        fun key here => ?_⟩
      have around : SameAt (key :: b.writes) ks ks' := List.forall_mem_cons.2 ⟨here, written⟩
      exact (around.editAll fun command mem => List.mem_cons_of_mem _ (List.mem_map_of_mem mem)).2
        key List.mem_cons_self
  · exact ⟨rfl, fun key here => here⟩

/-- A batch behind one that it is independent of is executed as if that one had not been
there. -/
theorem execute_behind (ks : Keyspace) {a b : Batch} (independent : a.Independent b) :
    ((ks.execute a).2.execute b).1 = (ks.execute b).1 ∧
      ∀ key : Key, key ∉ a.writes → ((ks.execute a).2.execute b).2[key]? = (ks.execute b).2[key]? := by
  have unseen : SameAt b.keys ks (ks.execute a).2 := fun key named =>
    getElem?_execute_of_not_mem fun written => independent.unseen key written named
  obtain ⟨answer, left⟩ := execute_congr unseen
  exact ⟨answer, fun key other => left key (getElem?_execute_of_not_mem other)⟩

/-- Independent batches are answered alike in both orders and leave the same keyspace, and a
batch never changes a key that none of its commands names. -/
theorem independent_batches_commute (ks : Keyspace) (a b : Batch) :
    (a.Independent b →
      ((ks.execute a).2.execute b).1 = (ks.execute b).1 ∧
      ((ks.execute b).2.execute a).1 = (ks.execute a).1 ∧
      ((ks.execute a).2.execute b).2 = ((ks.execute b).2.execute a).2) ∧
    ∀ key : Key, (∀ command ∈ a.commands, command.key ≠ key) → (ks.execute a).2[key]? = ks[key]? := by
  refine ⟨fun independent => ?_, fun key other => ?_⟩
  · obtain ⟨second, left⟩ := execute_behind ks independent
    obtain ⟨first, left'⟩ := execute_behind ks independent.symm
    refine ⟨second, first, Std.ExtTreeMap.ext_getElem? fun key => ?_⟩
    by_cases written : key ∈ a.writes
    · -- Only the first batch may have changed the key.
      have other : key ∉ b.writes := fun mem =>
        independent.unseen key written (List.mem_append_right _ mem)
      rw [getElem?_execute_of_not_mem other, left' key other]
    · rw [left key written, getElem?_execute_of_not_mem written]
  · refine getElem?_execute_of_not_mem fun written => ?_
    obtain ⟨command, mem, same⟩ := List.mem_map.1 written
    exact other command mem same

/-- One batch closes a queue and another one is rejected, in both orders.  Both need the same
key to be there. -/
theorem closing_and_rejection_commute :
    let ks : Keyspace := ((∅ : Keyspace).insert ⟨"owner"⟩ (.string "ann")).insert (.queue "ranked")
      (.sortedSet (SortedSet.empty.insert ⟨"p", ⟨0⟩⟩))
    let a : Batch := ⟨[.keyExists ⟨"owner"⟩],
      [.popFirst (.queue "ranked") 1, .setString (.queue "ranked") "closed"]⟩
    let b : Batch := ⟨[.keyExists ⟨"owner"⟩, .fieldEqual ⟨"h"⟩ "f" "v"], [.delete ⟨"h"⟩]⟩
    a.Independent b ∧ ((ks.execute a).2.execute b).1 = .ok (.rejected [true, false]) ∧
      ((ks.execute b).2.execute a).1 = .ok (.committed [.popped [⟨"p", ⟨0⟩⟩], .done]) ∧
      ((ks.execute a).2.execute b).2 = ((ks.execute b).2.execute a).2 := by
  intro ks a b
  have independent : a.Independent b := ⟨by decide, by decide⟩
  obtain ⟨second, first, same⟩ := (independent_batches_commute ks a b).1 independent
  have rejected : (ks.execute b).1 = .ok (.rejected [true, false]) := by decide +kernel
  have committed : (ks.execute a).1 = .ok (.committed [.popped [⟨"p", ⟨0⟩⟩], .done]) := by
    decide +kernel
  exact ⟨independent, second.trans rejected, first.trans committed, same⟩

end Keyspace

end Matchmaking
