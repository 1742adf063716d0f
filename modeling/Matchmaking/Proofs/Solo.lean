import Matchmaking.Proofs.Interference
import Matchmaking.Proofs.Returning

/-!
# Calls with nobody else at work

A call that runs on a store that meets no faults, while nobody else writes, ends in one
way only.  `Procedure.Solo` says what then holds of its result and of the store it
leaves.

The rules take a call apart: `bind` and its relatives along the procedure, `getOr` and
`getStored` for reads, and `transact` for a transaction.  A read finds what is stored
and leaves the store alone.  A transaction is turned down and leaves the store alone,
or its operations take effect.
-/

namespace Matchmaking

namespace Procedure

variable {ε δ α β : Type} {settings : Settings} {ks : Keyspace}

/-- Running keeps the limits of a client. -/
theorem settings_run (p : Procedure ε α) (c : Connection) :
    (p.run Connection.serve c).2.settings = c.settings := by
  induction p generalizing c with
  | done result => rfl
  | ask r next ih =>
    refine (ih _ _).trans ?_
    cases r <;> rfl

/-- Run on a store by a client with the given limits, without faults and with nobody else
at work, a procedure ends with a result and a store as agreed. -/
def Solo (settings : Settings) (post : Except ε α → Keyspace → Prop) (p : Procedure ε α)
    (ks : Keyspace) : Prop :=
  ∀ c : Connection, c.database.faults = [] → c.settings = settings → c.database.keyspace = ks →
    post (p.run Connection.serve c).1 (p.run Connection.serve c).2.database.keyspace

namespace Solo

theorem mono {post post' : Except ε α → Keyspace → Prop} {p : Procedure ε α}
    (h : Solo settings post p ks) (weaker : ∀ result ks, post result ks → post' result ks) :
    Solo settings post' p ks :=
  fun c calm limits store => weaker _ _ (h c calm limits store)

/-! ## Along a procedure -/

theorem done {post : Except ε α → Keyspace → Prop} {result : Except ε α} (h : post result ks) :
    Solo settings post (.done result) ks := by
  rintro c - - rfl
  exact h

theorem bind {post : Except ε β → Keyspace → Prop} {p : Procedure ε α} {f : α → Procedure ε β}
    (h : Solo settings (fun result ks => match result with
      | .ok a => Solo settings post (f a) ks
      | .error e => post (.error e) ks) p ks) : Solo settings post (p >>= f) ks := by
  intro c calm limits store
  have first := h c calm limits store
  obtain ⟨n, sent⟩ := p.sent c
  have faults := sent.faults
  have kept := p.settings_run c
  rw [calm, List.drop_nil] at faults
  cases run : p.run Connection.serve c with
  | mk result c' =>
    rw [run] at first faults kept
    cases result with
    | ok a =>
      rw [run_bind_ok run]
      exact first c' faults (kept.trans limits) rfl
    | error e =>
      rw [run_bind_error run]
      exact first

theorem mapError {post : Except δ α → Keyspace → Prop} {p : Procedure ε α} {f : ε → δ}
    (h : Solo settings (fun result => post (result.mapError f)) p ks) :
    Solo settings post (p.mapError f) ks := by
  intro c calm limits store
  rw [run_mapError]
  exact h c calm limits store

theorem attempt {post : Except δ (Except ε α) → Keyspace → Prop} {p : Procedure ε α}
    (h : Solo settings (fun result => post (.ok result)) p ks) :
    Solo settings post p.attempt ks := by
  intro c calm limits store
  rw [run_attempt]
  exact h c calm limits store

/-- A handler has nothing to do where the procedure does not fail. -/
theorem handle {post : Except ε α → Keyspace → Prop} {p : Procedure ε α} {f : ε → Procedure ε α}
    (h : Solo settings (fun result ks => post result ks ∧ ∃ a, result = .ok a) p ks) :
    Solo settings post (p.handle f) ks := by
  intro c calm limits store
  obtain ⟨first, a, ended⟩ := h c calm limits store
  have run : p.run Connection.serve c = (.ok a, (p.run Connection.serve c).2) :=
    Prod.ext ended rfl
  rw [run_handle_ok run]
  exact ended ▸ first

/-! ## Reads -/

section

variable {α : Type} [Record α] {id : String}

/-- A read finds what is stored. -/
theorem get {post : Except StoreError (Option (Entry α)) → Keyspace → Prop}
    (h : post (ks.get α id) ks) : Solo settings post (Client.get α id) ks := by
  rintro c - - rfl
  rw [Client.run_get]
  exact h

end

end Solo

end Procedure

namespace Keyspace

/-- What is stored under an id can be read: it describes an entry, or there is nothing. -/
def CanRead (α : Type) [Record α] (ks : Keyspace) (id : String) : Prop :=
  ∃ found, ks.get α id = .ok found

variable {α : Type} [Record α] {ks ks' : Keyspace} {id : String}

theorem entry?_congr (h : ks'[Key.entry α id]? = ks[Key.entry α id]?) :
    ks'.entry? α id = ks.entry? α id := by
  unfold entry?
  rw [h]

theorem get_congr (h : ks'[Key.entry α id]? = ks[Key.entry α id]?) :
    ks'.get α id = ks.get α id := by
  simp only [get, string, h]

theorem get_of_entry? {e : Entry α} (h : ks.entry? α id = some e) :
    ks.get α id = .ok (some e) := by
  obtain ⟨text, stored, read⟩ := text_of_entry? h
  exact get_of_text stored read

theorem canRead_of_entry? {e : Entry α} (h : ks.entry? α id = some e) : ks.CanRead α id :=
  ⟨some e, get_of_entry? h⟩

/-- What is not found, or cannot be read, is no record. -/
theorem record?_of_not_found (h : ∀ e, ks.get α id ≠ .ok (some e)) : ks.record? α id = none := by
  cases found : ks.entry? α id with
  | none => rw [record?, found, Option.map_none]
  | some e => exact absurd (Keyspace.get_of_entry? found) (h e)

/-- The entries among some ids that are stored, in the order of the ids. -/
def stored (α : Type) [Record α] (ks : Keyspace) (ids : List String) : List (Entry α) :=
  ids.filterMap (ks.entry? α)

theorem mem_stored {ids : List String} {e : Entry α} :
    e ∈ ks.stored α ids ↔ ∃ id ∈ ids, ks.entry? α id = some e := List.mem_filterMap

end Keyspace

namespace Procedure.Solo

variable {settings : Settings} {ks : Keyspace}

/-- A read of an entry finds the entry that is stored, or fails where no record is. -/
theorem getOr {α : Type} [Record α] {id : String}
    {post : Except GatewayError (Entry α) → Keyspace → Prop} {missing : GatewayError}
    (found : ∀ e, ks.entry? α id = some e → post (.ok e) ks)
    (lost : ks.record? α id = none → ∀ fault, post (.error fault) ks) :
    Solo settings post (Call.getOr α id missing) ks := by
  refine bind (mapError (get ?_))
  cases read : ks.get α id with
  | error e => exact lost (Keyspace.record?_of_not_found (by simp [read])) (.store e)
  | ok entry =>
    cases entry with
    | none => exact done (lost (Keyspace.record?_of_not_found (by simp [read])) missing)
    | some e => exact done (found e (Keyspace.get_eq_ok read))

/-- Reading several ids finds those that are stored, or fails if one of them cannot be
read. -/
theorem getStored {α : Type} [Record α] {ids : List String}
    {post : Except GatewayError (List (Entry α)) → Keyspace → Prop}
    (found : (∀ id ∈ ids, ks.CanRead α id) → post (.ok (ks.stored α ids)) ks)
    (unreadable : ∀ id ∈ ids, ∀ e, ks.get α id = .error e → post (.error (.store e)) ks) :
    Solo settings post (Call.getStored α ids) ks := by
  induction ids generalizing post with
  | nil => exact done (found (List.forall_mem_nil _))
  | cons id ids ih =>
    refine bind (mapError (get ?_))
    cases read : ks.get α id with
    | error e => exact unreadable id List.mem_cons_self e read
    | ok entry =>
      have here := Keyspace.get_eq_ok read
      refine bind (ih (fun rest => done ?_) fun y mem => unreadable y (List.mem_cons_of_mem id mem))
      have all := found (List.forall_mem_cons.2 ⟨⟨entry, read⟩, rest⟩)
      have form : ks.stored α (id :: ids) = entry.toList ++ ks.stored α ids := by
        rw [Keyspace.stored, List.filterMap_cons, here]
        cases entry <;> rfl
      rw [form] at all
      exact all

/-! ## Transactions -/

/-- A commit of operations that can be staged.  It blames a requirement that fails, or
the first command that does not fit its key, and leaves the store alone.  Otherwise the
operations take effect. -/
theorem commit {post : Except StoreError Commit → Keyspace → Prop} {ops : List Operation} {id : Nat}
    (staged : ∀ op ∈ ops, op.Stageable settings)
    (rejected : (¬ ∀ r ∈ Operation.allRequirements ops, r.Holds ks) →
      ∀ rejection, Blamed ks (Operation.allRequirements ops) rejection →
        post (.error (.rejected rejection)) ks)
    (mistyped : (∀ r ∈ Operation.allRequirements ops, r.Holds ks) → ∀ key type,
      Keyspace.firstMismatch ks.types (Operation.allCommands ops) = some (key, type) →
        post (.error (.wrongType key type)) ks)
    (accepted : (∀ r ∈ Operation.allRequirements ops, r.Holds ks) →
      Keyspace.firstMismatch ks.types (Operation.allCommands ops) = none →
        post (.ok ⟨id, ks.answers (Operation.allCommands ops)⟩) (Operation.allEffects ks ops)) :
    Solo settings post (Client.commit ((Transaction.empty id settings).stageAll ops)) ks := by
  rintro c calm - rfl
  obtain ⟨concluded, left⟩ := run_commit id (Database.next_of_calm calm) staged
  rw [concluded, left]
  by_cases holds : ∀ r ∈ Operation.allRequirements ops, r.Holds c.database.keyspace
  · cases fit : Keyspace.firstMismatch c.database.keyspace.types (Operation.allCommands ops) with
    | none =>
      rw [Keyspace.execute_committed staged holds fit, Transaction.conclude_committed id staged]
      exact accepted holds fit
    | some misfit =>
      rw [Keyspace.execute_mistyped staged holds fit]
      exact mistyped holds _ _ fit
  · rw [Keyspace.execute_rejected staged holds]
    obtain ⟨rejection, blamed, reported⟩ :=
      Transaction.conclude_rejected id staged c.database.keyspace
    rw [reported]
    exact rejected holds rejection blamed

theorem begin {post : Except StoreError Transaction → Keyspace → Prop}
    (h : ∀ id, post (.ok (.empty id settings)) ks) : Solo settings post Client.begin ks := by
  rintro c - rfl rfl
  exact h _

/-- A transaction of operations that can be staged. -/
theorem transact {post : Except StoreError Commit → Keyspace → Prop} {ops : List Operation}
    (staged : ∀ op ∈ ops, op.Stageable settings)
    (rejected : (¬ ∀ r ∈ Operation.allRequirements ops, r.Holds ks) →
      ∀ rejection, Blamed ks (Operation.allRequirements ops) rejection →
        post (.error (.rejected rejection)) ks)
    (mistyped : (∀ r ∈ Operation.allRequirements ops, r.Holds ks) → ∀ key type,
      Keyspace.firstMismatch ks.types (Operation.allCommands ops) = some (key, type) →
        post (.error (.wrongType key type)) ks)
    (accepted : (∀ r ∈ Operation.allRequirements ops, r.Holds ks) →
      Keyspace.firstMismatch ks.types (Operation.allCommands ops) = none →
        ∀ id, post (.ok ⟨id, ks.answers (Operation.allCommands ops)⟩)
          (Operation.allEffects ks ops)) :
    Solo settings post (Client.transact ops) ks :=
  bind (begin fun id => commit staged rejected mistyped fun holds fit => accepted holds fit id)

end Procedure.Solo

end Matchmaking
