import Matchmaking.Proofs.SortedSets
import Matchmaking.Proofs.StrictExecution

/-!
# The form of stored values

Whatever is done to a store, its values keep one form (`Keyspace.WellFormed`).  No
key holds an empty collection, and the two indexes of every stored sorted set are in
step.  So the ways to look at a key agree: a key that is absent shows nothing to
every read, and a key that is there shows nothing to none (`WellFormed.reads_nothing`).

The form is kept command by command.  A command puts a value at one key or removes
one (`WellFormed.put`), and sorted sets come about by operations that keep their
indexes in step.
-/

namespace Matchmaking

/-- A sorted set has its indexes in step. -/
def Value.InStep : Value → Prop
  | .sortedSet set => set.Agrees
  | _ => True

namespace Keyspace

/-- No collection is empty, and the indexes of sorted sets are in step. -/
structure WellFormed (ks : Keyspace) : Prop where
  /-- No key holds an empty collection. -/
  tidy : ks.Tidy
  /-- Every stored sorted set has its indexes in step. -/
  inStep : ∀ (key : Key) (v : Value), ks[key]? = some v → v.InStep

theorem wellFormed_empty : WellFormed ∅ where
  tidy := tidy_empty
  inStep key v stored := by
    rw [Std.ExtTreeMap.getElem?_empty] at stored
    contradiction

namespace WellFormed

variable {ks : Keyspace} (h : ks.WellFormed)

include h

/-! ## What commands do -/

theorem insert {v : Value} (filled : v.isEmptyCollection = false) (inStep : v.InStep) (key : Key) :
    WellFormed (ks.insert key v) where
  tidy := h.tidy.insert filled key
  inStep k w stored := by
    rw [getElem?_insert] at stored
    split at stored
    · exact Option.some.inj stored ▸ inStep
    · exact h.inStep k w stored

theorem erase (key : Key) : WellFormed (ks.erase key) where
  tidy := h.tidy.erase key
  inStep k w stored := by
    rw [getElem?_erase] at stored
    split at stored
    · contradiction
    · exact h.inStep k w stored

theorem put {v : Value} (inStep : v.InStep) (key : Key) : WellFormed (ks.put key v) := by
  unfold Keyspace.put
  split
  next => exact h.erase key
  next filled => exact h.insert (eq_false_of_ne_true filled) inStep key

/-- A key shows a sorted set whose indexes are in step. -/
theorem agrees_shown {key : Key} {set : SortedSet} (shown : ks.sortedSetAt? key = some set) :
    set.Agrees := by
  unfold sortedSetAt? at shown
  split at shown
  next =>
    obtain rfl := Option.some.inj shown
    exact SortedSet.agrees_empty
  next stored =>
    obtain rfl := Option.some.inj shown
    exact h.inStep key _ stored
  next => contradiction

theorem editSet {f : SortedSet → SortedSet}
    (agrees : ∀ set : SortedSet, set.Agrees → (f set).Agrees) (key : Key) :
    WellFormed (ks.editSet key f) := by
  unfold Keyspace.editSet
  split
  next set shown => exact h.put (v := .sortedSet (f set)) (agrees set (h.agrees_shown shown)) key
  next => exact h

theorem editHash (f : TextMap → TextMap) (key : Key) : WellFormed (ks.editHash key f) := by
  unfold Keyspace.editHash
  split
  next fields _ => exact h.put (v := .hash (f fields)) trivial key
  next => exact h

theorem edit (command : Command) : WellFormed (ks.edit command) := by
  cases command with
  | setString key value => exact h.insert (v := .string value) rfl trivial key
  | delete key => exact h.erase key
  | addMember key member => exact h.editSet (fun _ agrees => agrees.insert member) key
  | removeMember key member => exact h.editSet (fun _ agrees => agrees.erase member) key
  | popFirst key count => exact h.editSet (fun _ agrees => agrees.dropFirst count) key
  | setFields key updates =>
    cases updates with
    | nil => exact h
    | cons update updates => exact h.editHash _ key
  | deleteField key field => exact h.editHash _ key

theorem editAll (commands : List Command) : WellFormed (ks.editAll commands) := by
  induction commands generalizing ks with
  | nil => exact h
  | cons command commands ih => exact ih (h.edit command)

/-- A batch keeps the form, whatever becomes of it. -/
theorem execute (batch : Batch) : WellFormed (ks.execute batch).2 := by
  unfold Keyspace.execute
  dsimp only
  split
  next =>
    split
    next => exact h
    next =>
      rw [applyAll_eq]
      exact h.editAll batch.commands
  next => exact h

theorem append (key : Key) (texts : List String) : WellFormed (ks.append key texts).2 := by
  unfold Keyspace.append
  split
  next => exact h.put (v := .list texts) trivial key
  next items _ => exact h.put (v := .list (items ++ texts)) trivial key
  next => exact h

/-! ## What reads show -/

/-- Reads of a key show nothing exactly if the key is absent. -/
theorem reads_nothing (key : Key) :
    (ks.contains key = false ↔ ks.string key = .ok none) ∧
      (ks.contains key = false ↔ ks.fields key = .ok ∅) ∧
      (ks.contains key = false ↔ ks.members key = .ok []) := by
  rw [contains_eq, string, fields, members]
  cases stored : ks[key]? with
  | none => simp
  | some v =>
    have filled := h.tidy key v stored
    cases v with
    | string text => simp
    | list items => simp
    | hash fields =>
      have something : fields ≠ ∅ := Std.ExtTreeMap.isEmpty_eq_false_iff.1 filled
      simp [something]
    | sortedSet set =>
      have something : set.members ≠ [] := by
        intro unlisted
        have nonempty := Std.ExtTreeMap.isEmpty_eq_false_iff.1 filled
        refine nonempty (Std.ExtTreeMap.ext_getElem? fun y => ?_)
        rw [Std.ExtTreeMap.getElem?_empty]
        by_contra there
        obtain ⟨score, there⟩ := Option.ne_none_iff_exists'.1 there
        have member := ((h.inStep key _ stored).mem_iff ⟨y, score⟩).2 there
        rw [unlisted] at member
        exact absurd member List.not_mem_nil
      simp [something]

end WellFormed

/-- Appending to a key of another type fails and changes nothing. -/
theorem append_error {ks : Keyspace} {key : Key} {texts : List String} {e : StoreError}
    (failed : (ks.append key texts).1 = .error e) :
    e = .wrongType key .list ∧ (ks.append key texts).2 = ks := by
  unfold append at failed ⊢
  split at failed
  next => contradiction
  next => contradiction
  next =>
    injection failed with failed
    exact ⟨failed.symm, rfl⟩

end Keyspace

/-! ## Databases -/

namespace Database

/-- What is done to a database. -/
inductive Change where
  /-- A batch is executed. -/
  | execute (batch : Batch)
  /-- Texts are appended to a list. -/
  | append (key : Key) (texts : List String)
  /-- Every key is removed. -/
  | flush
  /-- The faults to come are replaced. -/
  | arm (faults : List (Option Fault))

/-- The database after a change. -/
def change (db : Database) : Change → Database
  | .execute batch => (db.execute batch).2
  | .append key texts => (db.append key texts).2
  | .flush => db.flush
  | .arm faults => db.arm faults

theorem wellFormed_meet {ks : Keyspace} (h : ks.WellFormed) (batch : Batch)
    (fault : Option Fault) : (meet ks batch fault).2.WellFormed := by
  cases fault with
  | none => exact h.execute batch
  | some fault =>
    cases fault with
    | fail reason => exact h
    | reject held => exact h
    | pretend count => exact h
    | precede commands => exact (h.execute ⟨[], commands⟩).execute batch

/-- A change keeps the form. -/
theorem wellFormed_change {db : Database} (h : db.keyspace.WellFormed) (c : Change) :
    (db.change c).keyspace.WellFormed := by
  cases c with
  | execute batch => exact wellFormed_meet h batch _
  | append key texts => exact h.append key texts
  | flush => exact Keyspace.wellFormed_empty
  | arm faults => exact h

/-- Changes keep the form. -/
theorem wellFormed_changes {db : Database} (h : db.keyspace.WellFormed) (changes : List Change) :
    (changes.foldl change db).keyspace.WellFormed := by
  induction changes generalizing db with
  | nil => exact h
  | cons c changes ih => exact ih (wellFormed_change h c)

/-- After any changes of the empty database, no key holds an empty collection, and the scores
and the list of a stored sorted set hold the same pairs, each member once.  So a key is absent
exactly if any read shows that it holds nothing.  An append that fails meets a key of another
type and changes nothing. -/
theorem representation_kept (changes : List Change) :
    let db := changes.foldl change .empty
    let ks := db.keyspace
    (∀ (key : Key) (v : Value), ks[key]? = some v → v.isEmptyCollection = false) ∧
    (∀ (key : Key) (set : SortedSet), ks[key]? = some (.sortedSet set) →
      (∀ m, m ∈ set.members ↔ set.scores[m.member]? = some m.score) ∧
        (set.members.map (·.member)).Nodup) ∧
    (∀ key, (ks.contains key = false ↔ ks.string key = .ok none) ∧
      (ks.contains key = false ↔ ks.fields key = .ok ∅) ∧
      (ks.contains key = false ↔ ks.members key = .ok [])) ∧
    (∀ key texts e, (db.append key texts).1 = .error e →
      e = .wrongType key .list ∧ (db.append key texts).2 = db) := by
  intro db ks
  have start : Database.empty.keyspace.WellFormed := Keyspace.wellFormed_empty
  have form : ks.WellFormed := wellFormed_changes start changes
  refine ⟨form.tidy, fun key set stored => ?_, form.reads_nothing, fun key texts e failed => ?_⟩
  · have agrees : set.Agrees := form.inStep key _ stored
    exact ⟨agrees.mem_iff, List.pairwise_map.2 agrees.distinct⟩
  · obtain ⟨kind, same⟩ := Keyspace.append_error failed
    exact ⟨kind, congrArg (fun ks => { db with keyspace := ks }) same⟩

/-- A queue runs empty, nothing is appended to a list, and an append to a hash fails. -/
theorem nothing_left_of_emptied_queue :
    let changes : List Change := [
      .execute ⟨[], [.addMember (.queue "ranked") ⟨"p", ⟨1⟩⟩, .setFields ⟨"h"⟩ [("owner", "a")]]⟩,
      .execute ⟨[.keyExists (.queue "ranked")], [.popFirst (.queue "ranked") 2]⟩,
      .append ⟨"l"⟩ [], .append ⟨"h"⟩ ["x"]]
    let db := changes.foldl change .empty
    db.keyspace.contains (.queue "ranked") = false ∧
      db.keyspace.members (.queue "ranked") = .ok [] ∧
      (db.append ⟨"h"⟩ ["x"]).1 = .error (.wrongType ⟨"h"⟩ .list) ∧
      (db.append ⟨"h"⟩ ["x"]).2 = db := by
  intro changes db
  obtain ⟨-, -, reads, appends⟩ := representation_kept changes
  have gone : db.keyspace.contains (.queue "ranked") = false := by decide +kernel
  have failed : (db.append ⟨"h"⟩ ["x"]).1 = .error (.wrongType ⟨"h"⟩ .list) := by rfl
  exact ⟨gone, (reads (.queue "ranked")).2.2.1 gone, failed, (appends ⟨"h"⟩ ["x"] _ failed).2⟩

end Database

end Matchmaking
