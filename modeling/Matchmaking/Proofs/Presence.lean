import Matchmaking.Proofs.Batches
import Matchmaking.Proofs.Revisions

/-!
# Presence

Three notions of an entry that is not there meet.  A read takes an absent key and an empty
text for no entry.  A creation needs its key to be absent.  An update or a deletion compares
an entry that was not read with the empty text.

They agree on every store that holds no empty text (`Keyspace.Filled`), and no other store is
ever reached (`Scene.Reached.filled`): no record is written as an empty text, and no other
write leaves a text.  So a creation goes through exactly if a read finds no entry, and an
entry that was not read is never updated or deleted (`Scene.presence_agrees`).
-/

namespace Matchmaking

/-! ## Stores without empty texts -/

namespace Keyspace

/-- No key holds an empty text. -/
def Filled (ks : Keyspace) : Prop := ∀ key : Key, ks[key]? ≠ some (.string "")

variable {ks : Keyspace}

theorem filled_empty : Filled ∅ := by
  intro key empty
  rw [Std.ExtTreeMap.getElem?_empty] at empty
  contradiction

theorem Filled.insert (h : ks.Filled) (key : Key) {v : Value} (filled : v ≠ .string "") :
    Filled (ks.insert key v) := by
  intro a empty
  rw [getElem?_insert] at empty
  split at empty
  · exact filled (Option.some.inj empty)
  · exact h a empty

theorem Filled.erase (h : ks.Filled) (key : Key) : Filled (ks.erase key) := by
  intro a empty
  rw [getElem?_erase] at empty
  split at empty
  · contradiction
  · exact h a empty

theorem Filled.put (h : ks.Filled) (key : Key) {v : Value} (filled : v ≠ .string "") :
    Filled (ks.put key v) := by
  unfold Keyspace.put
  split
  · exact h.erase key
  · exact h.insert key filled

theorem Filled.editSet (h : ks.Filled) (key : Key) (f : SortedSet → SortedSet) :
    Filled (ks.editSet key f) := by
  unfold Keyspace.editSet
  split
  · exact h.put key fun same => by contradiction
  · exact h

theorem Filled.editHash (h : ks.Filled) (key : Key) (f : TextMap → TextMap) :
    Filled (ks.editHash key f) := by
  unfold Keyspace.editHash
  split
  · exact h.put key fun same => by contradiction
  · exact h

/-- Only writing an empty text leaves one. -/
theorem Filled.edit (h : ks.Filled) {command : Command}
    (written : ∀ key, command ≠ .setString key "") : (ks.edit command).Filled := by
  cases command with
  | setString key text =>
    refine h.insert key fun same => ?_
    injection same with same
    exact written key (same ▸ rfl)
  | delete key => exact h.erase key
  | addMember key member => exact h.editSet key _
  | removeMember key member => exact h.editSet key _
  | popFirst key count => exact h.editSet key _
  | setFields key fields =>
    cases fields with
    | nil => exact h
    | cons field fields => exact h.editHash key _
  | deleteField key field => exact h.editHash key _

theorem Filled.editAll (h : ks.Filled) {commands : List Command}
    (written : ∀ command ∈ commands, ∀ key, command ≠ .setString key "") :
    (ks.editAll commands).Filled := by
  induction commands generalizing ks with
  | nil => exact h
  | cons command commands ih =>
    obtain ⟨first, rest⟩ := List.forall_mem_cons.1 written
    exact ih (h.edit first) rest

theorem Filled.append (h : ks.Filled) (key : Key) (texts : List String) :
    Filled (ks.append key texts).2 := by
  unfold Keyspace.append
  split
  · exact h.put key fun same => by contradiction
  · exact h.put key fun same => by contradiction
  · exact h

end Keyspace

/-! ## Operations that write no empty text -/

namespace Operation

/-- No entry is written as the empty text. -/
def Written : Operation → Prop
  | .create entries => ∀ d ∈ entries, d.text ≠ .ok ""
  | .update entries => ∀ d ∈ entries, d.text ≠ .ok ""
  | _ => True

/-- Written operations have no command that writes the empty text. -/
theorem Written.commands {op : Operation} (h : op.Written) :
    ∀ command ∈ op.commands, ∀ key, command ≠ .setString key "" := by
  have one {entries : List Draft} (h : ∀ d ∈ entries, d.text ≠ .ok "") :
      ∀ command ∈ entries.flatMap writeCommand, ∀ key, command ≠ .setString key "" := by
    rintro _ mem key rfl
    obtain ⟨d, hd, mem⟩ := List.mem_flatMap.1 mem
    unfold writeCommand at mem
    split at mem
    next text written =>
      injection List.mem_singleton.1 mem with _ same
      exact h d hd (same ▸ written)
    next => exact absurd mem List.not_mem_nil
  cases op with
  | create entries => exact one h
  | update entries => exact one h
  | delete entries | enqueue entries | enqueueMembers queue entries | unqueue entries =>
    rintro _ mem key rfl
    obtain ⟨_, _, same⟩ := List.mem_map.1 mem
    contradiction
  | updateHash hash fields =>
    rintro _ mem key rfl
    obtain ⟨field, _, same⟩ := List.mem_map.1 mem
    unfold Transaction.fieldCommand at same
    split at same <;> contradiction
  | deleteKey _ | dequeue _ _ | createHash _ _ | deleteField _ _ =>
    rintro _ mem key rfl
    have same := List.mem_singleton.1 mem
    contradiction
  | _ => exact List.forall_mem_nil _

theorem filled_allEffects {ks : Keyspace} (h : ks.Filled) {ops : List Operation}
    (written : ∀ op ∈ ops, op.Written) : (allEffects ks ops).Filled := by
  rw [← editAll_allCommands]
  refine h.editAll fun command mem => ?_
  obtain ⟨op, hop, mem⟩ := List.mem_flatMap.1 mem
  exact (written op hop).commands command mem

end Operation

/-- A record is not written as the empty text. -/
theorem Entry.draft_text_ne {α : Type} [Record α] (e : Entry α) : e.draft.text ≠ .ok "" := by
  intro empty
  change e.serialize = .ok "" at empty
  unfold serialize at empty
  split at empty
  next json _ => exact json.print_ne_empty (Except.ok.inj empty)
  next => contradiction

theorem Operation.written_drafts {α ι : Type} [Record α] (f : ι → Entry α) (xs : List ι) :
    ∀ d ∈ xs.map fun x => (f x).draft, d.text ≠ .ok "" := by
  intro d hd
  obtain ⟨x, _, rfl⟩ := List.mem_map.1 hd
  exact (f x).draft_text_ne

/-- No call writes an empty text. -/
theorem Facade.Commits.written {f : Facade} {ops : List Operation} (h : f.Commits ops) :
    ∀ op ∈ ops, op.Written := by
  intro op hop
  have one {α : Type} [Record α] (e : Entry α) : ∀ d ∈ [e.draft], d.text ≠ .ok "" :=
    List.forall_mem_singleton.2 e.draft_text_ne
  have updating (players : List (Entry PlayerRequest)) (g : PlayerRequest → PlayerRequest) :
      (Custody.updating players g).Written :=
    Operation.written_drafts (fun e : Entry PlayerRequest => e.modify g) players
  cases h with
  | creates party | admits e => rcases List.mem_pair.1 hop with rfl | rfl <;> exact one _
  | departs m e =>
    rcases List.mem_pair.1 hop with rfl | rfl
    · exact trivial
    · unfold Parties.departure
      dsimp only
      split
      · exact trivial
      · exact one _
  | queues e leads =>
    simp only [Custody.joining, List.mem_cons, List.not_mem_nil, or_false] at hop
    rcases hop with rfl | rfl | rfl | rfl
    · exact one _
    · exact one _
    · exact Operation.written_drafts id _
    · exact trivial
  | pops =>
    obtain rfl := List.mem_singleton.1 hop
    exact trivial
  | engages players =>
    obtain rfl := List.mem_singleton.1 hop
    exact updating players _
  | returns popped =>
    obtain rfl := List.mem_singleton.1 hop
    exact trivial
  | decides d e P players =>
    cases d with
    | matched _ _ | error =>
      simp only [Gateway.Decision.operations, List.mem_cons, List.not_mem_nil, or_false] at hop
      rcases hop with rfl | rfl | rfl
      · exact updating players _
      · exact one _
      · exact trivial
    | requeued =>
      rcases List.mem_pair.1 hop with rfl | rfl
      · exact updating players _
      · exact trivial
  | forgets e terminal =>
    obtain rfl := List.mem_singleton.1 hop
    exact trivial
  | describes plan =>
    obtain ⟨d, onHash⟩ := Metadata.Task.onHash plan
    cases onHash op hop <;> trivial

/-! ## Reads and conditions agree -/

section

variable {α : Type} [Record α] {ks : Keyspace} {id : String}

/-- A read finds no entry exactly if the key is absent. -/
theorem Keyspace.Filled.get_eq_none_iff (h : ks.Filled) :
    ks.get α id = .ok none ↔ ks[Key.entry α id]? = none := by
  unfold Keyspace.get Keyspace.string
  cases stored : ks[Key.entry α id]? with
  | none => exact iff_of_true rfl rfl
  | some v =>
    refine iff_of_false (fun got => ?_) (Option.some_ne_none v)
    cases v with
    | string text =>
      dsimp only [Client.entryOfText] at got
      split at got
      next empty =>
        obtain rfl : text = "" := String.isEmpty_iff.1 empty
        exact h _ stored
      next =>
        cases read : (Entry.deserialize text : Except StoreError (Entry α)) with
        | error e =>
          rw [read] at got
          contradiction
        | ok e =>
          rw [read] at got
          injection got with got
          contradiction
    | _ => contradiction

/-- A creation goes through exactly if the key is absent. -/
theorem create_ok_iff {c : Connection} (calm : c.database.faults = []) {d : Draft} {text : String}
    (written : d.text = .ok text) :
    (∃ commit, ((Client.transact [.create [d]]).run Connection.serve c).1 = .ok commit) ↔
      c.database.keyspace[d.key]? = none := by
  have next := Database.next_of_calm calm
  have staged : ∀ op ∈ [Operation.create [d]], op.Stageable c.settings :=
    List.forall_mem_singleton.2 (List.forall_mem_singleton.2 ⟨text, written⟩)
  rw [run_transact]
  constructor
  · rintro ⟨commit, committed⟩
    have holds := (run_commit_ok (c := { c with opened := c.opened + 1 }) next committed).2.1
    exact Operation.holds_create (Operation.holds_cons holds).1 d List.mem_cons_self
  · intro absent
    have holds : ∀ r ∈ Operation.allRequirements [.create [d]], r.Holds c.database.keyspace :=
      List.forall_mem_singleton.2 absent
    have fit : Keyspace.firstMismatch c.database.keyspace.types
        (Operation.allCommands [.create [d]]) = none := by
      rw [Operation.allCommands, List.flatMap_singleton, Operation.commands]
      exact Keyspace.firstMismatch_untyped _ fun _ => Operation.requiredType_of_writeCommands
    have concluded := (run_commit (c := { c with opened := c.opened + 1 }) (c.opened + 1) next
      staged).1
    rw [Keyspace.execute_committed staged holds fit, Transaction.conclude_committed _ staged]
      at concluded
    exact ⟨_, concluded⟩

/-- An entry that was not read is not updated or deleted. -/
theorem Keyspace.Filled.unread_fails (h : ks.Filled) {c : Connection}
    (store : c.database.keyspace = ks) (calm : c.database.faults = []) {ops : List Operation}
    {entries : List Draft} (mem : .update entries ∈ ops ∨ .delete entries ∈ ops) {d : Draft}
    (hd : d ∈ entries) (unread : d.previous = none) :
    let run := (Client.transact ops).run Connection.serve c
    (∃ e, run.1 = .error e) ∧ run.2.database.keyspace = ks := by
  intro run
  have next := Database.next_of_calm calm
  have needed : Requirement.unchanged d ∈ Operation.allRequirements ops := by
    rcases mem with mem | mem <;>
      exact List.mem_flatMap.2 ⟨_, mem, List.mem_flatMap.2 ⟨d, hd, by simp⟩⟩
  rcases run_commit_cases (c := { c with opened := c.opened + 1 }) (c.opened + 1) c.settings ops
    (Database.withholds_of_next next) with failed | ⟨-, -, accepted, -⟩
  · exact ⟨failed.1, failed.2.trans store⟩
  · have holds : ks[d.key]? = some (.string (d.previous.getD "")) := store ▸
      (run_commit_ok (c := { c with opened := c.opened + 1 }) next accepted).2.1 _ needed
    rw [unread] at holds
    exact absurd holds (h d.key)

end

/-! ## Reached stores -/

namespace Scene

/-- The scenes that are reached from the empty store: calls go on, transactions are committed
next to them, texts are appended to lists, and all keys are removed. -/
inductive Reached : Scene → Prop where
  /-- Nothing has happened. -/
  | initial : Reached initial
  /-- A call takes a step. -/
  | call {s s' : Scene} {i : Nat} (reach : Reached s) (step : Step s i s') : Reached s'
  /-- A transaction is committed that writes no empty text. -/
  | transaction {s : Scene} (reach : Reached s) (id : Nat) (settings : Settings)
      (ops : List Operation) (written : ∀ op ∈ ops, op.Written) (c : Connection)
      (store : c.database.keyspace = s.keyspace) (calm : c.database.faults = []) :
      Reached { s with
        keyspace := ((Client.commit ((Transaction.empty id settings).stageAll ops)).run
          Connection.serve c).2.database.keyspace }
  /-- Texts are appended to a list. -/
  | append {s : Scene} (reach : Reached s) (key : Key) (texts : List String) :
      Reached { s with keyspace := (s.keyspace.append key texts).2 }
  /-- All keys are removed. -/
  | flush {s : Scene} (reach : Reached s) : Reached { s with keyspace := ∅ }

theorem Reached.agreed {s : Scene} (reach : s.Reached) : s.Agreed := by
  induction reach with
  | initial => exact agreed_initial
  | call reach step ih => exact step.agreed ih
  | transaction reach id settings ops written c store calm ih => exact ih
  | append reach key texts ih => exact ih
  | flush reach ih => exact ih

/-- No store that is reached holds an empty text. -/
theorem Reached.filled {s : Scene} (reach : s.Reached) : s.keyspace.Filled := by
  induction reach with
  | initial => exact Keyspace.filled_empty
  | call reach step ih =>
    rcases step.keyspace reach.agreed with same | ⟨f, rest, ops, -, commits, -, left⟩
    · exact same ▸ ih
    · exact left ▸ Operation.filled_allEffects ih commits.written
  | transaction reach id settings ops written c store calm ih =>
    have withholds := Database.withholds_of_next (Database.next_of_calm calm)
    rcases run_commit_cases id settings ops withholds with ⟨-, same⟩ | ⟨-, -, -, left⟩
    · exact (same.trans store) ▸ ih
    · exact left ▸ Operation.filled_allEffects (store ▸ ih) written
  | append reach key texts ih => exact ih.append key texts
  | flush reach ih => exact Keyspace.filled_empty

/-- On every store that is reached, a read finds no entry exactly if the key is absent, and
exactly then a creation goes through.  No transaction goes through that updates or deletes an
entry that was not read. -/
theorem presence_agrees {s : Scene} (reach : s.Reached) (α : Type) [Record α] (id : String)
    (c : Connection) (store : c.database.keyspace = s.keyspace) (calm : c.database.faults = []) :
    let got := ((Client.get α id).run Connection.serve c).1
    (got = .ok none ↔ s.keyspace.contains (.entry α id) = false) ∧
      (∀ (e : Entry α) (text : String), e.id = id → e.serialize = .ok text →
        ((∃ commit, ((Client.transact [.create [e.draft]]).run Connection.serve c).1 = .ok commit) ↔
          got = .ok none)) ∧
      ∀ (ops : List Operation) (entries : List Draft) (d : Draft),
        .update entries ∈ ops ∨ .delete entries ∈ ops → d ∈ entries → d.previous = none →
          let run := (Client.transact ops).run Connection.serve c
          (∃ e, run.1 = .error e) ∧ run.2.database.keyspace = s.keyspace := by
  intro got
  have read : got = s.keyspace.get α id := by
    rw [← store]
    exact congrArg Prod.fst (Client.run_get α id c)
  have absent : got = .ok none ↔ s.keyspace[Key.entry α id]? = none := by
    rw [read]
    exact reach.filled.get_eq_none_iff
  refine ⟨?_, fun e text own written => ?_, fun ops entries d mem hd unread => ?_⟩
  · rw [absent, Keyspace.contains_eq, Option.isSome_eq_false_iff, Option.isNone_iff_eq_none]
  · rw [absent, create_ok_iff calm written, store, ← own]
    rfl
  · exact reach.filled.unread_fails store calm mem hd unread

/-- Next to a member that was created, another one can be created, and the first one is not
deleted by somebody who has not read it. -/
theorem presence_of_member :
    let ann : Entry Member := .fresh ⟨"ann", "p"⟩
    let bob : Entry Member := .fresh ⟨"bob", "p"⟩
    let c := ((Client.transact [.create [ann.draft]]).run Connection.serve ⟨.empty, .default, 0⟩).2
    let s : Scene := ⟨c.database.keyspace, initial.calls⟩
    s.Reached ∧ c.database.faults = [] ∧ (∃ text, bob.serialize = .ok text) ∧
      (∃ commit, ((Client.transact [.create [bob.draft]]).run Connection.serve c).1 = .ok commit) ∧
      ∃ e, ((Client.transact [.delete [ann.draft]]).run Connection.serve c).1 = .error e := by
  intro ann bob c s
  have written : ∀ op ∈ [Operation.create [ann.draft]], op.Written :=
    List.forall_mem_singleton.2 (List.forall_mem_singleton.2 ann.draft_text_ne)
  have reach : s.Reached :=
    .transaction .initial 1 .default _ written ⟨.empty, .default, 1⟩ rfl rfl
  have calm : c.database.faults = [] := rfl
  obtain ⟨text, plain⟩ := Entry.draft_text (e := bob) (Member.readable _)
  obtain ⟨absent, creates, unread⟩ := presence_agrees reach Member "bob" c rfl calm
  have gone : s.keyspace.contains (.entry Member "bob") = false := by decide +kernel
  exact ⟨reach, calm, ⟨text, plain⟩, (creates bob text rfl plain).2 (absent.2 gone),
    (unread _ _ ann.draft (.inr List.mem_cons_self) List.mem_cons_self rfl).1⟩

end Scene

end Matchmaking
