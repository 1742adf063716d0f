import Matchmaking.Proofs.Commit

/-!
# Batches one command at a time

The *strict* meaning of commands knows no check ahead of time.  Commands run one
after the other, and one that addresses a key of another type than it needs, as
the key is at that moment, is an error (`Keyspace.strictAll`).

Execution checks the types of a whole batch first and then applies commands that
skip whatever does not fit.  On a keyspace without empty collections the two
agree: a batch that is committed runs strictly, without an error, to the same
replies and the same keyspace (`strictAll_of_passes`).  The check may turn down
batches that would run strictly, because it tracks no collection to its end.

What a batch is rejected by is said by `Condition.Says`, which knows stored values
and views of collections only.
-/

namespace Matchmaking

/-! ## What conditions say -/

/-- What a condition says of a keyspace. -/
def Condition.Says (ks : Keyspace) : Condition → Prop
  | .keyExists key => ks[key]? ≠ none
  | .keyNotExists key => ks[key]? = none
  | .stringEqual key value => ks[key]? = some (.string value)
  | .hashLengthEqual key length => ∃ fields, ks.hashAt? key = some fields ∧ fields.size = length
  | .listLengthEqual key length => ∃ items, ks.listAt? key = some items ∧ items.length = length
  | .sortedSetLonger key length => ∃ set, ks.sortedSetAt? key = some set ∧ length < set.size
  | .fieldExists key field => ∃ fields, ks.hashAt? key = some fields ∧ field ∈ fields
  | .fieldNotExists key field => ∀ fields, ks.hashAt? key = some fields → field ∉ fields
  | .fieldEqual key field value =>
    ∃ fields, ks.hashAt? key = some fields ∧ fields[field]? = some value
  | .fieldNotEqual key field value =>
    ∀ fields, ks.hashAt? key = some fields → fields[field]? ≠ some value

namespace Keyspace

/-- A condition holds exactly if what it says is so. -/
theorem holds_iff (ks : Keyspace) (c : Condition) : ks.holds c = true ↔ c.Says ks := by
  cases c with
  | keyExists key => exact (Demand.present_meets key).holds ks
  | keyNotExists key => exact (Demand.absent_meets key).holds ks
  | stringEqual key value => exact decide_eq_true_iff
  | hashLengthEqual key length =>
    simp only [holds, hashLength?_eq, Condition.Says, decide_eq_true_eq, Option.map_eq_some_iff]
  | listLengthEqual key length =>
    simp only [holds, listLength?_eq, Condition.Says, decide_eq_true_eq, Option.map_eq_some_iff]
  | sortedSetLonger key length =>
    simp only [holds, sortedSetSize?_eq, Condition.Says, Option.any_eq_true, Option.map_eq_some_iff,
      decide_eq_true_eq]
    constructor
    · rintro ⟨_, ⟨set, shown, rfl⟩, longer⟩
      exact ⟨set, shown, longer⟩
    · rintro ⟨set, shown, longer⟩
      exact ⟨_, ⟨set, shown, rfl⟩, longer⟩
  | fieldExists key field => exact (Demand.hasField_meets key field).holds ks
  | fieldNotExists key field => exact (Demand.lacksField_meets key field).holds ks
  | fieldEqual key field value => exact (Demand.fieldIs_meets key field value).holds ks
  | fieldNotEqual key field value => exact (Demand.fieldIsNot_meets key field value).holds ks

/-- The answers of a store say of each condition in order whether it is so. -/
theorem forall₂_holds (ks : Keyspace) (cs : List Condition) :
    List.Forall₂ (fun c held => held = true ↔ c.Says ks) cs (cs.map ks.holds) := by
  rw [List.forall₂_map_right_iff]
  exact List.forall₂_same.2 fun c _ => ks.holds_iff c

theorem all_holds (ks : Keyspace) (cs : List Condition) :
    (cs.map ks.holds).all id = true ↔ ∀ c ∈ cs, ks.holds c = true := by
  rw [List.all_map, List.all_eq_true]
  rfl

theorem all_holds_iff (ks : Keyspace) (cs : List Condition) :
    (cs.map ks.holds).all id = true ↔ ∀ c ∈ cs, c.Says ks :=
  (ks.all_holds cs).trans (forall₂_congr fun c _ => ks.holds_iff c)

/-! ## Strict commands -/

/-- The sorted set that a command addresses; a key of another type is an error. -/
def addressSet (ks : Keyspace) (key : Key) : Except StoreError SortedSet :=
  match ks[key]? with
  | none => .ok .empty
  | some (.sortedSet set) => .ok set
  | some _ => .error (.wrongType key .sortedSet)

/-- The hash that a command addresses; a key of another type is an error. -/
def addressHash (ks : Keyspace) (key : Key) : Except StoreError TextMap :=
  match ks[key]? with
  | none => .ok ∅
  | some (.hash fields) => .ok fields
  | some _ => .error (.wrongType key .hash)

/-- Runs one command strictly. -/
def strict (ks : Keyspace) : Command → Except StoreError (Reply × Keyspace)
  | .setString key value => .ok (.done, ks.insert key (.string value))
  | .delete key => .ok (.done, ks.erase key)
  | .addMember key member => do
    let set ← ks.addressSet key
    pure (.done, ks.put key (.sortedSet (set.insert member)))
  | .removeMember key member => do
    let set ← ks.addressSet key
    pure (.done, ks.put key (.sortedSet (set.erase member)))
  | .popFirst key count => do
    let set ← ks.addressSet key
    pure (.popped (set.first count), ks.put key (.sortedSet (set.dropFirst count)))
  | .setFields key updates => do
    let fields ← ks.addressHash key
    pure (.done, ks.put key (.hash (fields.setAll updates)))
  | .deleteField key field => do
    let fields ← ks.addressHash key
    pure (.done, ks.put key (.hash (fields.erase field)))

/-- Runs commands strictly in order, up to the first error. -/
def strictAll (ks : Keyspace) : List Command → Except StoreError (List Reply × Keyspace)
  | [] => .ok ([], ks)
  | command :: commands => do
    let (reply, ks) ← ks.strict command
    let (replies, ks) ← ks.strictAll commands
    pure (reply :: replies, ks)

/-! ## Keyspaces without empty collections -/

/-- No key holds an empty collection. -/
def Tidy (ks : Keyspace) : Prop :=
  ∀ (key : Key) (v : Value), ks[key]? = some v → v.isEmptyCollection = false

theorem tidy_empty : Tidy ∅ := by
  intro key v stored
  rw [Std.ExtTreeMap.getElem?_empty] at stored
  contradiction

namespace Tidy

variable {ks : Keyspace} (h : ks.Tidy)

include h

theorem insert {v : Value} (filled : v.isEmptyCollection = false) (key : Key) :
    Tidy (ks.insert key v) := by
  intro k w stored
  rw [getElem?_insert] at stored
  split at stored
  · exact Option.some.inj stored ▸ filled
  · exact h k w stored

theorem erase (key : Key) : Tidy (ks.erase key) := by
  intro k w stored
  rw [getElem?_erase] at stored
  split at stored
  · contradiction
  · exact h k w stored

theorem put (key : Key) (v : Value) : Tidy (ks.put key v) := by
  unfold Keyspace.put
  split
  next => exact h.erase key
  next filled => exact h.insert (eq_false_of_ne_true filled) key

/-- Putting back the hash that a key shows changes nothing. -/
theorem put_hashAt? {key : Key} {fields : TextMap} (shown : ks.hashAt? key = some fields) :
    ks.put key (.hash fields) = ks := by
  unfold hashAt? at shown
  cases stored : ks[key]? with
  | none =>
    rw [stored] at shown
    obtain rfl := Option.some.inj shown
    exact put_no_fields stored
  | some v =>
    rw [stored] at shown
    cases v with
    | hash fields' =>
      obtain rfl := Option.some.inj shown
      rw [put_nonempty (h key _ stored)]
      refine Std.ExtTreeMap.ext_getElem? fun a => ?_
      rw [getElem?_insert]
      split
      next same => rw [← same, stored]
      next => rfl
    | _ => contradiction

/-- Commands leave no empty collections. -/
theorem edit (command : Command) : Tidy (ks.edit command) := by
  have set (key : Key) (f : SortedSet → SortedSet) : Tidy (ks.editSet key f) := by
    unfold editSet
    split
    · exact h.put key _
    · exact h
  have hash (key : Key) (f : TextMap → TextMap) : Tidy (ks.editHash key f) := by
    unfold editHash
    split
    · exact h.put key _
    · exact h
  cases command with
  | setString key value => exact h.insert rfl key
  | delete key => exact h.erase key
  | addMember key member => exact set key _
  | removeMember key member => exact set key _
  | popFirst key count => exact set key _
  | setFields key updates =>
    cases updates with
    | nil => exact h
    | cons update updates => exact hash key _
  | deleteField key field => exact hash key _

end Tidy

/-! ## Commands that fit -/

section

variable {ks : Keyspace}

/-- A key of fitting type is addressed as the sorted set that it shows. -/
theorem addressSet_of_type (key : Key) (fits : ∀ v, ks[key]? = some v → v.type = .sortedSet) :
    ∃ set, ks.sortedSetAt? key = some set ∧ ks.addressSet key = .ok set := by
  unfold sortedSetAt? addressSet
  cases stored : ks[key]? with
  | none => exact ⟨_, rfl, rfl⟩
  | some v =>
    have typed := fits v stored
    cases v with
    | sortedSet set => exact ⟨set, rfl, rfl⟩
    | _ => contradiction

/-- A key of fitting type is addressed as the hash that it shows. -/
theorem addressHash_of_type (key : Key) (fits : ∀ v, ks[key]? = some v → v.type = .hash) :
    ∃ fields, ks.hashAt? key = some fields ∧ ks.addressHash key = .ok fields := by
  unfold hashAt? addressHash
  cases stored : ks[key]? with
  | none => exact ⟨_, rfl, rfl⟩
  | some v =>
    have typed := fits v stored
    cases v with
    | hash fields => exact ⟨fields, rfl, rfl⟩
    | _ => contradiction

/-- A command that fits its key runs strictly to its answer and its edit. -/
theorem strict_of_fits (tidy : ks.Tidy) {command : Command} (fits : ks.Fits command) :
    ks.strict command = .ok (ks.answer command, ks.edit command) := by
  cases command with
  | setString key value => rfl
  | delete key => rfl
  | addMember key member =>
    obtain ⟨set, shown, found⟩ := addressSet_of_type key fun v stored => fits v stored _ rfl
    rw [strict, found, edit, editSet, shown]
    rfl
  | removeMember key member =>
    obtain ⟨set, shown, found⟩ := addressSet_of_type key fun v stored => fits v stored _ rfl
    rw [strict, found, edit, editSet, shown]
    rfl
  | popFirst key count =>
    obtain ⟨set, shown, found⟩ := addressSet_of_type key fun v stored => fits v stored _ rfl
    rw [strict, found, answer, edit, editSet, shown]
    rfl
  | setFields key updates =>
    obtain ⟨fields, shown, found⟩ := addressHash_of_type key fun v stored => fits v stored _ rfl
    rw [strict, found]
    -- Without updates the command is skipped, while the strict one writes the hash back.
    cases updates with
    | nil => exact congrArg (fun ks => Except.ok (Reply.done, ks)) (tidy.put_hashAt? shown)
    | cons update updates =>
      rw [edit, editHash, shown]
      · rfl
      · exact List.cons_ne_nil update updates
  | deleteField key field =>
    obtain ⟨fields, shown, found⟩ := addressHash_of_type key fun v stored => fits v stored _ rfl
    rw [strict, found, edit, editHash, shown]
    rfl

/-- Commands that pass the type check run strictly to what applying them gives.  The
tracked types follow the keyspace command by command. -/
theorem strictAll_of_passes {ts : Types} {commands : List Command} (tracks : Tracks ts ks)
    (tidy : ks.Tidy) (pass : firstMismatch ts commands = none) :
    ks.strictAll commands = .ok (ks.answers commands, ks.editAll commands) := by
  induction commands generalizing ts ks with
  | nil => rfl
  | cons command commands ih =>
    rw [firstMismatch] at pass
    split at pass
    · contradiction
    next fit =>
      have rest := ih (tracks.edit fit) (tidy.edit command) pass
      rw [strictAll, strict_of_fits tidy (tracks.fits fit)]
      exact congrArg (fun done => done >>= fun (replies, ks') =>
        pure (ks.answer command :: replies, ks')) rest

end

/-! ## Batches -/

/-- A batch does everything or nothing.  It is rejected exactly if some condition is not
so, with an answer to each condition in order.  A batch that is rejected or fails changes
nothing.  One that is committed did what its commands do strictly, with one reply to each
command. -/
theorem execute_all_or_nothing (ks : Keyspace) (batch : Batch) (tidy : ks.Tidy) :
    let answer := (ks.execute batch).1
    let after := (ks.execute batch).2
    ((∃ held, answer = .ok (.rejected held)) ↔ ∃ c ∈ batch.conditions, ¬ c.Says ks) ∧
    (∀ held, answer = .ok (.rejected held) → after = ks ∧
      List.Forall₂ (fun c held => held = true ↔ c.Says ks) batch.conditions held) ∧
    (∀ e, answer = .error e → after = ks ∧ ∃ key type, e = .wrongType key type) ∧
    (∀ replies, answer = .ok (.committed replies) →
      ks.strictAll batch.commands = .ok (replies, after) ∧
        replies.length = batch.commands.length) := by
  intro answer after
  by_cases so : ∀ c ∈ batch.conditions, c.Says ks
  · have nobody : ¬ ∃ c ∈ batch.conditions, ¬ c.Says ks := fun ⟨c, hc, fails⟩ => fails (so c hc)
    have passed : ((batch.conditions.map ks.holds).all id) = true := (ks.all_holds_iff _).2 so
    cases check : firstMismatch ks.types batch.commands with
    | some misfit =>
      have failed : ks.execute batch = (.error (.wrongType misfit.1 misfit.2), ks) := by
        rw [execute, if_pos passed, check]
      simp [answer, after, failed, nobody]
    | none =>
      have committed : ks.execute batch =
          (.ok (.committed (ks.answers batch.commands)), ks.editAll batch.commands) := by
        rw [execute, if_pos passed, check, applyAll_eq]
      have strictly := strictAll_of_passes (tracks_types ks) tidy check
      simp [answer, after, committed, nobody, strictly, length_answers]
  · have rejected : ks.execute batch = (.ok (.rejected (batch.conditions.map ks.holds)), ks) := by
      rw [execute, if_neg (mt (ks.all_holds_iff _).1 so)]
    obtain ⟨c, hc, fails⟩ : ∃ c ∈ batch.conditions, ¬ c.Says ks := by
      simpa only [not_forall, exists_prop] using so
    refine ⟨⟨fun _ => ⟨c, hc, fails⟩, fun _ => ⟨_, congrArg Prod.fst rejected⟩⟩, ?_, ?_, ?_⟩
    · intro held same
      obtain rfl : batch.conditions.map ks.holds = held := by
        simpa [answer, rejected] using same
      exact ⟨congrArg Prod.snd rejected, ks.forall₂_holds _⟩
    · intro e same
      simp [answer, rejected] at same
    · intro replies same
      simp [answer, rejected] at same

/-- The last member of a queue is popped and the key holds a text then. -/
theorem pop_then_set_runs_strictly :
    let ks : Keyspace := Std.ExtTreeMap.insert ∅ (.queue "ranked")
      (.sortedSet (SortedSet.empty.insert ⟨"p", ⟨0⟩⟩))
    let batch : Batch := ⟨[.sortedSetLonger (.queue "ranked") 0],
      [.popFirst (.queue "ranked") 1, .setString (.queue "ranked") "closed"]⟩
    ks.Tidy ∧ ks.strictAll batch.commands =
      .ok ([.popped [⟨"p", ⟨0⟩⟩], .done], (ks.execute batch).2) := by
  intro ks batch
  have tidy : ks.Tidy := tidy_empty.insert (isEmptyCollection_insert _ _) _
  exact ⟨tidy, ((execute_all_or_nothing ks batch tidy).2.2.2 _ rfl).1⟩

end Keyspace

end Matchmaking
