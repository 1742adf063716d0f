import Matchmaking.Proofs.Operations
import Matchmaking.Client
import Matchmaking.Party
import Matchmaking.Service

/-!
# Commits

Committing staged operations is one step on the store, read off the table of
operations.

1. If a requirement fails, nothing is written and the commit is rejected.  The
   rejection blames the first failing requirement of the kind that comes first in
   the order of `FailureKind.rank`.  Snapshots are never blamed (`Blamed`).
2. If all requirements hold and every command fits the type its key will have,
   the operations take effect in order.
3. If a command does not fit, nothing is written.

The types that a batch is checked against are tracked without running it.  They
are those of the keys, except that a key stays typed when its collection runs
empty (`Tracks`).  So no command of a batch that passes meets a key of another
type when it runs.
-/

namespace Matchmaking

/-! ## Blame -/

namespace FailureKind

/-- The order in which kinds are blamed. -/
def rank : FailureKind → Nat
  | insufficientEntries => 0
  | alreadyExists => 1
  | notFound => 2
  | failedCondition => 3
  | aborted => 4

/-- The concern whose failure a kind is. -/
def concern : FailureKind → Concern
  | insufficientEntries => .queueLength
  | alreadyExists => .absence
  | notFound => .presence
  | failedCondition => .value
  | aborted => .snapshot

theorem failure_concern (k : FailureKind) : k.concern.failure = k := by cases k <;> rfl

end FailureKind

theorem Concern.concern_failure (c : Concern) : c.failure.concern = c := by cases c <;> rfl

/-- The rejection that a store with failing requirements is reported with. -/
inductive Blamed (ks : Keyspace) (needs : List Requirement) : Rejection → Prop where
  /-- A requirement is to blame: it is the first failing one of its kind, and none
  of a kind that comes earlier fails. -/
  | named (before after : List Requirement) (r : Requirement)
      (split : needs = before ++ r :: after) (nameable : r.kind ≠ .aborted)
      (fails : ¬ r.Holds ks) (first : ∀ r' ∈ before, r'.kind = r.kind → r'.Holds ks)
      (lowest : ∀ r' ∈ needs, r'.kind.rank < r.kind.rank → r'.Holds ks) :
      Blamed ks needs ⟨r.kind, some r.label⟩
  /-- Only snapshots fail. -/
  | unnamed (others : ∀ r ∈ needs, r.kind ≠ .aborted → r.Holds ks) : Blamed ks needs .aborted

/-- Nobody is blamed exactly if only snapshots fail. -/
theorem Blamed.eq_aborted_iff {ks : Keyspace} {needs : List Requirement} {rejection : Rejection}
    (h : Blamed ks needs rejection) :
    rejection = .aborted ↔ ∀ r ∈ needs, r.kind ≠ .aborted → r.Holds ks := by
  cases h with
  | named before after r split nameable fails first lowest =>
    constructor
    · intro same
      injection same with kind
      exact absurd kind nameable
    · intro others
      exact absurd (others r (split ▸ List.mem_append_right before List.mem_cons_self) nameable) fails
  | unnamed others => exact ⟨fun _ => others, fun _ => rfl⟩

theorem FailureKind.rank_injective {k k' : FailureKind} (h : k.rank = k'.rank) : k = k' := by
  revert h
  cases k <;> cases k' <;> decide

/-- A failing requirement is blamed if none of its kind in front of it fails and none of a
kind that comes earlier does. -/
theorem Blamed.eq_named {ks : Keyspace} {needs before after : List Requirement} {r : Requirement}
    {rejection : Rejection} (h : Blamed ks needs rejection) (split : needs = before ++ r :: after)
    (nameable : r.kind ≠ .aborted) (fails : ¬ r.Holds ks)
    (first : ∀ r' ∈ before, r'.kind = r.kind → r'.Holds ks)
    (lowest : ∀ r' ∈ needs, r'.kind.rank < r.kind.rank → r'.Holds ks) :
    rejection = ⟨r.kind, some r.label⟩ := by
  have mem : r ∈ needs := split ▸ List.mem_append_right before List.mem_cons_self
  cases h with
  | unnamed others => exact absurd (others r mem nameable) fails
  | named before' after' r' split' _ fails' first' lowest' =>
    have mem' : r' ∈ needs := split' ▸ List.mem_append_right before' List.mem_cons_self
    have kind : r'.kind = r.kind := FailureKind.rank_injective <| Nat.le_antisymm
      (Nat.not_lt.1 fun less => fails (lowest' r mem less))
      (Nat.not_lt.1 fun less => fails' (lowest r' mem' less))
    -- Neither of the two stands in front of the other.
    rcases List.append_eq_append_iff.1 (split.symm.trans split') with
      ⟨between, rfl, same⟩ | ⟨between, rfl, same⟩
    · cases between with
      | nil => rw [(List.cons.inj same).1]
      | cons x between =>
        obtain rfl := (List.cons.inj same).1
        exact absurd (first' r (List.mem_append_right _ List.mem_cons_self) kind.symm) fails
    · cases between with
      | nil => rw [← (List.cons.inj same).1]
      | cons x between =>
        obtain rfl := (List.cons.inj same).1
        exact absurd (first r' (List.mem_append_right _ List.mem_cons_self) kind) fails'

/-! ## The diagnosis of a registry -/

namespace Registry

variable {ks : Keyspace} {ds : List Demand} {rs : List Requirement}

open Classical in
/-- What a registry knows of a requirement after a store answered. -/
noncomputable def recorded (ks : Keyspace) (r : Requirement) : Attachment :=
  ⟨r.label, r.kind.concern, some (decide (r.Holds ks))⟩

open Classical in
/-- The answers of a store say of each requirement whether it holds. -/
theorem answer_eq (h : List.Forall₂ Demand.Meets ds rs) :
    answer (ds.map Demand.attachment) (ds.map fun d => ks.holds d.condition) =
      rs.map (recorded ks) := by
  induction h with
  | nil => rfl
  | @cons d r ds rs meets _ ih =>
    simp only [List.map_cons, answer, ih, recorded, Demand.attachment, ← meets.kind,
      Concern.concern_failure, ← meets.label]
    congr 3
    exact Bool.eq_iff_iff.2 ((meets.holds ks).trans decide_eq_true_iff.symm)

/-- Of a kind without a failed attachment every requirement holds. -/
theorem firstFailed_eq_none {cs : List Condition} {k : FailureKind}
    (h : firstFailed ⟨rs.map (recorded ks), cs⟩ k.concern = none) :
    ∀ r ∈ rs, r.kind = k → r.Holds ks := by
  intro r hr hk
  have holds := List.find?_eq_none.1 h (recorded ks r) (List.mem_map_of_mem hr)
  by_contra fails
  exact holds (by simp [recorded, hk, fails])

/-- The first failed attachment of a kind is that of its first failing
requirement. -/
theorem firstFailed_eq_some {cs : List Condition} {k : FailureKind} {a : Attachment}
    (h : firstFailed ⟨rs.map (recorded ks), cs⟩ k.concern = some a) :
    ∃ before r after, rs = before ++ r :: after ∧ r.kind = k ∧ ¬ r.Holds ks ∧
      (∀ r' ∈ before, r'.kind = k → r'.Holds ks) ∧ a = recorded ks r := by
  obtain ⟨failed, before', after', split, first⟩ := List.find?_eq_some_iff_append.1 h
  obtain ⟨before, rest, rfl, rfl, cons⟩ := List.map_eq_append_iff.1 split
  obtain ⟨r, after, rfl, rfl, rfl⟩ := List.map_eq_cons_iff.1 cons
  have injective {r : Requirement} (same : r.kind.concern = k.concern) : r.kind = k := by
    rw [← r.kind.failure_concern, same, k.failure_concern]
  obtain ⟨same, held⟩ := of_decide_eq_true failed
  have fails : ¬ r.Holds ks := by
    intro holds
    simp [recorded, holds] at held
  refine ⟨before, r, after, rfl, injective same, fails, ?_, rfl⟩
  intro r' hr' hk
  by_contra fails
  have := first _ (List.mem_map_of_mem hr')
  simp [recorded, hk, fails] at this

/-- The diagnosis of recorded answers blames as the table says. -/
theorem diagnose_blamed (cs : List Condition) :
    Blamed ks rs (diagnose ⟨rs.map (recorded ks), cs⟩) := by
  have named {k : FailureKind} {a : Attachment} (nameable : k ≠ .aborted)
      (failed : firstFailed ⟨rs.map (recorded ks), cs⟩ k.concern = some a)
      (lower : ∀ k' : FailureKind, k'.rank < k.rank →
        firstFailed ⟨rs.map (recorded ks), cs⟩ k'.concern = none) :
      Blamed ks rs ⟨a.concern.failure, some a.label⟩ := by
    obtain ⟨before, r, after, split, rfl, fails, first, rfl⟩ := firstFailed_eq_some failed
    rw [recorded, r.kind.failure_concern]
    exact .named before after r split nameable fails first fun r' hr' less =>
      firstFailed_eq_none (lower r'.kind less) r' hr' rfl
  unfold diagnose
  simp only [Concern.precedence, List.findSome?_cons]
  cases queue : firstFailed ⟨rs.map (recorded ks), cs⟩ .queueLength with
  | some a =>
    refine named (k := .insufficientEntries) (by decide) queue fun k' less => ?_
    cases k' <;> exact absurd less (by decide)
  | none =>
  cases absence : firstFailed ⟨rs.map (recorded ks), cs⟩ .absence with
  | some a =>
    refine named (k := .alreadyExists) (by decide) absence fun k' less => ?_
    cases k' <;> first | assumption | exact absurd less (by decide)
  | none =>
  cases presence : firstFailed ⟨rs.map (recorded ks), cs⟩ .presence with
  | some a =>
    refine named (k := .notFound) (by decide) presence fun k' less => ?_
    cases k' <;> first | assumption | exact absurd less (by decide)
  | none =>
  cases value : firstFailed ⟨rs.map (recorded ks), cs⟩ .value with
  | some a =>
    refine named (k := .failedCondition) (by decide) value fun k' less => ?_
    cases k' <;> first | assumption | exact absurd less (by decide)
  | none =>
    refine .unnamed fun r hr nameable => ?_
    cases kind : r.kind with
    | insufficientEntries => exact firstFailed_eq_none (k := .insufficientEntries) queue r hr kind
    | alreadyExists => exact firstFailed_eq_none (k := .alreadyExists) absence r hr kind
    | notFound => exact firstFailed_eq_none (k := .notFound) presence r hr kind
    | failedCondition => exact firstFailed_eq_none (k := .failedCondition) value r hr kind
    | aborted => exact absurd kind nameable

end Registry

/-! ## The type check -/

namespace Keyspace

/-- Tracked types say the type of every key that holds something. -/
def Tracks (ts : Types) (ks : Keyspace) : Prop := ∀ key v, ks[key]? = some v → ts key = some v.type

theorem tracks_types (ks : Keyspace) : Tracks ks.types ks := by
  intro key v h
  rw [types, h, Option.map_some]

/-- Whether a command meets its key absent or with the type it needs. -/
def Fits (ks : Keyspace) (command : Command) : Prop :=
  ∀ v, ks[command.key]? = some v → ∀ type, requiredType command = some type → v.type = type

theorem Tracks.fits {ts : Types} {ks : Keyspace} {command : Command} (tracks : Tracks ts ks)
    (pass : mismatch? (ts command.key) command = none) : ks.Fits command := by
  intro v hv type required
  by_contra other
  simp [tracks _ v hv, mismatch?, required, other] at pass

/-- An edit touches no other key. -/
theorem getElem?_edit_of_ne {ks : Keyspace} {command : Command} {key : Key}
    (h : command.key ≠ key) : (ks.edit command)[key]? = ks[key]? := by
  cases command with
  | setString k value => exact (getElem?_insert ks k key _).trans (if_neg h)
  | delete k => exact (getElem?_erase ks k key).trans (if_neg h)
  | addMember k member => exact getElem?_editSet_of_ne h
  | removeMember k member => exact getElem?_editSet_of_ne h
  | popFirst k count => exact getElem?_editSet_of_ne h
  | setFields k updates =>
    cases updates with
    | nil => rfl
    | cons update updates => exact getElem?_editHash_of_ne h
  | deleteField k field => exact getElem?_editHash_of_ne h

/-- A key of fitting type shows a sorted set after an edit of one. -/
theorem type_editSet {ks : Keyspace} {key : Key} {f : SortedSet → SortedSet} {v : Value}
    (fits : ∀ w, ks[key]? = some w → w.type = .sortedSet)
    (after : (ks.editSet key f)[key]? = some v) : v.type = .sortedSet := by
  unfold editSet at after
  split at after
  · rw [getElem?_put, if_pos rfl] at after
    split at after
    · contradiction
    · exact Option.some.inj after ▸ rfl
  · exact fits v after

/-- A key of fitting type shows a hash after an edit of one. -/
theorem type_editHash {ks : Keyspace} {key : Key} {f : TextMap → TextMap} {v : Value}
    (fits : ∀ w, ks[key]? = some w → w.type = .hash)
    (after : (ks.editHash key f)[key]? = some v) : v.type = .hash := by
  unfold editHash at after
  split at after
  · rw [getElem?_put, if_pos rfl] at after
    split at after
    · contradiction
    · exact Option.some.inj after ▸ rfl
  · exact fits v after

/-- What a removal leaves at a key has the type that the key had. -/
theorem type_removal {ks after : Keyspace} {key : Key} {v : Value} {type : ValueType}
    {current : Option ValueType} (fits : ∀ w, ks[key]? = some w → w.type = type)
    (before : ∀ w, ks[key]? = some w → current = some w.type)
    (absent : ks[key]? = none → after = ks) (typed : v.type = type)
    (left : after[key]? = some v) : current = some v.type := by
  cases h : ks[key]? with
  | none =>
    rw [absent h, h] at left
    contradiction
  | some w => rw [before w h, fits w h, typed]

/-- What a command leaves at its key has the tracked type. -/
theorem type_edit {ks : Keyspace} {command : Command} {v : Value} {current : Option ValueType}
    (fits : ks.Fits command) (before : ∀ w, ks[command.key]? = some w → current = some w.type)
    (after : (ks.edit command)[command.key]? = some v) :
    typeAfter current command = some v.type := by
  cases command with
  | setString key text =>
    have same : Value.string text = v := by simpa [edit, Command.key] using after
    exact same ▸ rfl
  | delete key => simp [edit, Command.key] at after
  | addMember key member =>
    have typed := type_editSet (fun w hw => fits w hw _ rfl) after
    exact congrArg some typed.symm
  | removeMember key member =>
    have typed := type_editSet (fun w hw => fits w hw _ rfl) after
    exact type_removal (fun w hw => fits w hw _ rfl) before
      (fun h => editSet_absent h (SortedSet.erase_empty member)) typed after
  | popFirst key count =>
    have typed := type_editSet (fun w hw => fits w hw _ rfl) after
    exact type_removal (fun w hw => fits w hw _ rfl) before
      (fun h => editSet_absent h (SortedSet.dropFirst_empty count)) typed after
  | setFields key updates =>
    cases updates with
    | nil => exact before v after
    | cons update updates =>
      have typed := type_editHash (fun w hw => fits w hw _ rfl) after
      exact congrArg some typed.symm
  | deleteField key field =>
    have typed := type_editHash (fun w hw => fits w hw _ rfl) after
    exact type_removal (fun w hw => fits w hw _ rfl) before
      (fun h => editHash_absent h Std.ExtTreeMap.erase_empty) typed after

/-- The types are tracked command by command. -/
theorem Tracks.edit {ts : Types} {ks : Keyspace} {command : Command} (tracks : Tracks ts ks)
    (pass : mismatch? (ts command.key) command = none) :
    Tracks (ts.set command.key (typeAfter (ts command.key) command)) (ks.edit command) := by
  intro key v after
  by_cases same : key = command.key
  · subst same
    rw [Types.set, if_pos rfl]
    exact type_edit (tracks.fits pass) (tracks command.key) after
  · rw [Types.set, if_neg same]
    rw [getElem?_edit_of_ne (Ne.symm same)] at after
    exact tracks key v after

/-- In commands that pass the type check, each one fits when it runs. -/
theorem Tracks.fits_all {ts : Types} {ks : Keyspace} {first second : List Command}
    {command : Command} (tracks : Tracks ts ks)
    (pass : firstMismatch ts (first ++ command :: second) = none) :
    (ks.editAll first).Fits command := by
  induction first generalizing ts ks with
  | nil =>
    rw [List.nil_append, firstMismatch] at pass
    split at pass
    · contradiction
    · next fit => exact tracks.fits fit
  | cons c first ih =>
    rw [List.cons_append, firstMismatch] at pass
    split at pass
    · contradiction
    · next fit => exact ih (tracks.edit fit) pass

/-! ## Executing staged operations -/

/-- The batch of operations. -/
def batchOf (ops : List Operation) : Batch :=
  ⟨(Operation.allDemands ops).map Demand.condition, Operation.allCommands ops⟩

/-- Conditions hold together exactly if the requirements they stand for do. -/
theorem holds_all_iff {ks : Keyspace} {ds : List Demand} {rs : List Requirement}
    (h : List.Forall₂ Demand.Meets ds rs) :
    ((ds.map Demand.condition).map ks.holds).all id = true ↔ ∀ r ∈ rs, r.Holds ks := by
  induction h with
  | nil => simp
  | cons meets _ ih =>
    rw [List.map_cons, List.map_cons, List.all_cons, Bool.and_eq_true, ih, List.forall_mem_cons]
    exact and_congr_left fun _ => meets.holds ks

section

variable {ks : Keyspace} {settings : Settings} {ops : List Operation}
  (staged : ∀ op ∈ ops, op.Stageable settings)

include staged

/-- The conditions of the batch hold exactly if the requirements do. -/
theorem holds_batchOf : ((batchOf ops).conditions.map ks.holds).all id = true ↔
    ∀ r ∈ Operation.allRequirements ops, r.Holds ks :=
  holds_all_iff (Operation.allDemands_meet staged)

/-- Operations whose requirements hold and whose commands fit take effect. -/
theorem execute_committed (holds : ∀ r ∈ Operation.allRequirements ops, r.Holds ks)
    (fit : firstMismatch ks.types (Operation.allCommands ops) = none) :
    ks.execute (batchOf ops) =
      (.ok (.committed (ks.answers (Operation.allCommands ops))), Operation.allEffects ks ops) := by
  rw [execute, if_pos ((holds_batchOf staged).2 holds)]
  simp only [batchOf, fit, applyAll_eq, Operation.editAll_allCommands]

/-- A command that does not fit fails the batch. -/
theorem execute_mistyped (holds : ∀ r ∈ Operation.allRequirements ops, r.Holds ks) {key : Key}
    {type : ValueType}
    (misfit : firstMismatch ks.types (Operation.allCommands ops) = some (key, type)) :
    ks.execute (batchOf ops) = (.error (.wrongType key type), ks) := by
  rw [execute, if_pos ((holds_batchOf staged).2 holds)]
  simp only [batchOf, misfit]

/-- A failing requirement rejects the batch. -/
theorem execute_rejected (fails : ¬ ∀ r ∈ Operation.allRequirements ops, r.Holds ks) :
    ks.execute (batchOf ops) =
      (.ok (.rejected ((Operation.allDemands ops).map fun d => ks.holds d.condition)), ks) := by
  rw [execute, if_neg (mt (holds_batchOf staged).1 fails)]
  simp only [batchOf, List.map_map]
  rfl

end

end Keyspace

/-! ## Committing staged operations -/

namespace Transaction

variable (id : Nat) {settings : Settings} {ops : List Operation}

/-- What a fresh transaction submits after operations were staged. -/
theorem submission_stageAll (staged : ∀ op ∈ ops, op.Stageable settings) :
    ((empty id settings).stageAll ops).submission =
      if Operation.allCommands ops = [] ∧ Operation.allDemands ops = [] then .nothing
      else .batch (Keyspace.batchOf ops) := by
  rw [stageAll_eq (empty id settings) staged]
  simp only [submission, extend, empty, Registry.empty, Registry.isEmpty, Registry.take,
    List.nil_append, Bool.and_eq_true, List.isEmpty_iff, List.map_eq_nil_iff]
  rfl

theorem conclude_committed (staged : ∀ op ∈ ops, op.Stageable settings) (replies : List Reply) :
    ((empty id settings).stageAll ops).conclude (.ok (.committed replies)) = .ok ⟨id, replies⟩ := by
  rw [stageAll_eq (empty id settings) staged]
  rfl

/-- What a fresh transaction makes of a rejection is what the table says. -/
theorem conclude_rejected (staged : ∀ op ∈ ops, op.Stageable settings) (ks : Keyspace) :
    ∃ rejection, Blamed ks (Operation.allRequirements ops) rejection ∧
      ((empty id settings).stageAll ops).conclude
          (.ok (.rejected ((Operation.allDemands ops).map fun d => ks.holds d.condition))) =
        .error (.rejected rejection) := by
  refine ⟨_, Registry.diagnose_blamed (Operation.allDemands ops |>.map Demand.condition), ?_⟩
  rw [stageAll_eq (empty id settings) staged]
  simp only [conclude, extend, empty, Registry.empty, List.nil_append, Registry.recordAnswers,
    Registry.answer_eq (Operation.allDemands_meet staged)]

end Transaction

namespace Operation

theorem allCommands_append_cons (before : List Operation) (op : Operation)
    (later : List Operation) :
    allCommands (before ++ op :: later) =
      allCommands before ++ (op.commands ++ allCommands later) := by
  rw [allCommands, List.flatMap_append, List.flatMap_cons]
  rfl

/-- The members that a dequeue popped are the first ones of the queue as the
operations in front of it left it. -/
theorem dequeued_eq {ks : Keyspace} {id : Nat} {settings : Settings} {before later : List Operation}
    {queue : String} {count : Nat}
    (staged : ∀ op ∈ before ++ .dequeue queue count :: later, op.Stageable settings)
    (fit : Keyspace.firstMismatch ks.types
      (allCommands (before ++ .dequeue queue count :: later)) = none) :
    ∃ set, (allEffects ks before).sortedSetAt? (.queue queue) = some set ∧
      Commit.dequeued ⟨id, ks.answers (allCommands (before ++ .dequeue queue count :: later))⟩
        ((Transaction.empty id settings).stageAll before).nextTicket = set.first count := by
  have ahead : ∀ op ∈ before, op.Stageable settings :=
    fun op h => staged op (List.mem_append_left _ h)
  have ticket : ((Transaction.empty id settings).stageAll before).nextTicket =
      ⟨id, (allCommands before).length⟩ := by
    rw [Transaction.stageAll_eq (.empty id settings) ahead]
    rfl
  rw [allCommands_append_cons] at fit ⊢
  have fits := (Keyspace.tracks_types ks).fits_all fit
  rw [editAll_allCommands] at fits
  obtain ⟨set, shown⟩ : ∃ set, (allEffects ks before).sortedSetAt? (.queue queue) = some set :=
    Keyspace.sortedSetAt?_of_type fun v hv => fits v hv .sortedSet rfl
  refine ⟨set, shown, ?_⟩
  rw [ticket, Commit.dequeued, if_pos rfl]
  dsimp only
  rw [commands, List.singleton_append, Keyspace.answers_append_cons, editAll_allCommands,
    Keyspace.answer, shown]
  rfl

end Operation

/-- Committing staged operations where no fault is met is executing their batch. -/
theorem run_commit {c : Connection} (id : Nat) {settings : Settings} {ops : List Operation}
    (calm : c.database.faults.head?.join = none) (staged : ∀ op ∈ ops, op.Stageable settings) :
    let tx := (Transaction.empty id settings).stageAll ops
    let executed := c.database.keyspace.execute (Keyspace.batchOf ops)
    ((Client.commit tx).run Connection.serve c).1 = tx.conclude executed.1 ∧
      ((Client.commit tx).run Connection.serve c).2.database.keyspace = executed.2 := by
  intro tx executed
  have submission := Transaction.submission_stageAll id staged
  rw [Client.commit, submission]
  by_cases none : Operation.allCommands ops = [] ∧ Operation.allDemands ops = []
  · have nothing : executed = (.ok (.committed []), c.database.keyspace) := by
      simp only [executed, Keyspace.batchOf, none.1, none.2]
      rfl
    rw [if_pos none, nothing]
    exact ⟨rfl, rfl⟩
  · rw [if_neg none]
    simp only [Procedure.run, Connection.serve, Database.execute, calm, Database.meet]
    exact ⟨rfl, rfl⟩

/-- Operations that could not be staged fail without asking the store. -/
theorem run_commit_unstaged (c : Connection) (id : Nat) {settings : Settings}
    {ops : List Operation} (unstaged : ¬ ∀ op ∈ ops, op.Stageable settings) :
    let run := (Client.commit ((Transaction.empty id settings).stageAll ops)).run Connection.serve c
    (∃ e, run.1 = .error e) ∧ run.2 = c := by
  have deferred : ((Transaction.empty id settings).stageAll ops).deferred ≠ none :=
    fun clean => unstaged (Transaction.deferred_stageAll.1 clean).1
  obtain ⟨e, same⟩ := Option.ne_none_iff_exists'.1 deferred
  simp only [Client.commit, Transaction.submission, same, Procedure.run]
  exact ⟨⟨e, rfl⟩, trivial⟩

/-- The fault takes the place of a batch and writes nothing, and the client learns that
its batch was not applied. -/
def Fault.Withholds : Fault → Prop
  | fail _ => True
  | reject _ => True
  | pretend _ => False
  | precede _ => False

/-- Without faults none comes next. -/
theorem Database.next_of_calm {db : Database} (calm : db.faults = []) :
    db.faults.head?.join = none := by
  rw [calm]
  rfl

theorem Database.withholds_of_next {db : Database} (none : db.faults.head?.join = none)
    (fault : Fault) (next : db.faults.head?.join = some fault) : fault.Withholds := by
  rw [none] at next
  contradiction

/-- The commit of a batch that meets a fault fails and changes nothing. -/
theorem run_commit_withheld {c : Connection} (id : Nat) {settings : Settings}
    {ops : List Operation} {fault : Fault} (next : c.database.faults.head?.join = some fault)
    (withholds : fault.Withholds) (staged : ∀ op ∈ ops, op.Stageable settings)
    (something : ¬ (Operation.allCommands ops = [] ∧ Operation.allDemands ops = [])) :
    let run := (Client.commit ((Transaction.empty id settings).stageAll ops)).run Connection.serve c
    (∃ e, run.1 = .error e) ∧ run.2.database.keyspace = c.database.keyspace ∧
      run.2.database.received = c.database.received + 1 := by
  have submission := Transaction.submission_stageAll id staged
  rw [if_neg something] at submission
  simp only [Client.commit, submission, Procedure.run, Connection.serve, Database.execute, next]
  cases fault with
  | fail reason => exact ⟨⟨_, rfl⟩, rfl, trivial⟩
  | reject held => exact ⟨⟨_, rfl⟩, rfl, trivial⟩
  | pretend count => exact withholds.elim
  | precede commands => exact withholds.elim

/-- A commit of staged operations either fails and changes nothing, or does what the table
says, unless a fault makes the client believe otherwise. -/
theorem run_commit_cases {c : Connection} (id : Nat) (settings : Settings) (ops : List Operation)
    (withholds : ∀ fault, c.database.faults.head?.join = some fault → fault.Withholds) :
    let run := (Client.commit ((Transaction.empty id settings).stageAll ops)).run Connection.serve c
    let ks := c.database.keyspace
    ((∃ e, run.1 = .error e) ∧ run.2.database.keyspace = ks) ∨
      ((∀ op ∈ ops, op.Stageable settings) ∧
        Keyspace.firstMismatch ks.types (Operation.allCommands ops) = none ∧
        run.1 = .ok ⟨id, ks.answers (Operation.allCommands ops)⟩ ∧
        run.2.database.keyspace = Operation.allEffects ks ops) := by
  intro run ks
  by_cases staged : ∀ op ∈ ops, op.Stageable settings
  · by_cases nothing : Operation.allCommands ops = [] ∧ Operation.allDemands ops = []
    · have submission := Transaction.submission_stageAll id staged
      rw [if_pos nothing] at submission
      have left : Operation.allEffects ks ops = ks := by
        rw [← Operation.editAll_allCommands, nothing.1, Keyspace.editAll_nil]
      simp only [run, Client.commit, submission, Procedure.run, nothing.1, left]
      exact .inr ⟨staged, rfl, Transaction.conclude_committed id staged [], rfl⟩
    cases next : c.database.faults.head?.join with
    | some fault =>
      obtain ⟨failed, same, -⟩ := run_commit_withheld id next (withholds fault next) staged nothing
      exact .inl ⟨failed, same⟩
    | none =>
      obtain ⟨concluded, left⟩ := run_commit id next staged
      by_cases holds : ∀ r ∈ Operation.allRequirements ops, r.Holds ks
      · cases fit : Keyspace.firstMismatch ks.types (Operation.allCommands ops) with
        | none =>
          rw [Keyspace.execute_committed staged holds fit] at concluded left
          exact .inr ⟨staged, rfl, concluded.trans (Transaction.conclude_committed id staged _), left⟩
        | some misfit =>
          rw [Keyspace.execute_mistyped staged holds fit] at concluded left
          exact .inl ⟨⟨_, concluded⟩, left⟩
      · obtain ⟨rejection, -, reported⟩ := Transaction.conclude_rejected id staged ks
        rw [Keyspace.execute_rejected staged holds] at concluded left
        exact .inl ⟨⟨_, concluded.trans reported⟩, left⟩
  · obtain ⟨failed, same⟩ := run_commit_unstaged c id staged
    exact .inl ⟨failed, congrArg (·.database.keyspace) same⟩

/-- A commit that succeeds without a fault met requirements that hold and commands that
fit. -/
theorem run_commit_ok {c : Connection} {id : Nat} {settings : Settings} {ops : List Operation}
    (calm : c.database.faults.head?.join = none) {commit : Commit}
    (committed : ((Client.commit ((Transaction.empty id settings).stageAll ops)).run
      Connection.serve c).1 = .ok commit) :
    let ks := c.database.keyspace
    (∀ op ∈ ops, op.Stageable settings) ∧
      (∀ r ∈ Operation.allRequirements ops, r.Holds ks) ∧
      Keyspace.firstMismatch ks.types (Operation.allCommands ops) = none ∧
      commit = ⟨id, ks.answers (Operation.allCommands ops)⟩ := by
  intro ks
  rcases run_commit_cases id settings ops (Database.withholds_of_next calm) with
    ⟨⟨e, failed⟩, -⟩ | ⟨staged, fit, accepted, -⟩
  · rw [failed] at committed
    contradiction
  · refine ⟨staged, ?_, fit, Except.ok.inj (committed.symm.trans accepted)⟩
    by_contra fails
    obtain ⟨rejection, -, reported⟩ := Transaction.conclude_rejected id staged ks
    have concluded := (run_commit id calm staged).1
    rw [Keyspace.execute_rejected staged fails, reported, accepted] at concluded
    contradiction

/-- Committing a transaction refines the table of its operations. -/
theorem commit_refines_table (c : Connection) (id : Nat) (settings : Settings)
    (ops : List Operation) (calm : c.database.faults.head?.join = none)
    (staged : ((Transaction.empty id settings).stageAll ops).deferred = none) :
    let tx := (Transaction.empty id settings).stageAll ops
    let ks := c.database.keyspace
    let needs := Operation.allRequirements ops
    let result := ((Client.commit tx).run Connection.serve c).1
    let after := ((Client.commit tx).run Connection.serve c).2.database.keyspace
    ((¬ ∀ r ∈ needs, r.Holds ks) →
      after = ks ∧ ∃ rejection, result = .error (.rejected rejection) ∧
        Blamed ks needs rejection ∧
        (rejection = .aborted ↔ ∀ r ∈ needs, r.kind ≠ .aborted → r.Holds ks)) ∧
    ((∀ r ∈ needs, r.Holds ks) → Keyspace.firstMismatch ks.types tx.commands = none →
      after = Operation.allEffects ks ops ∧ ∃ commit, result = .ok commit ∧
        commit.transaction = id ∧ commit.applied = tx.commands.length ∧
        (∀ first command second, tx.commands = first ++ command :: second →
          (ks.editAll first).Fits command) ∧
        ∀ before queue count later, ops = before ++ .dequeue queue count :: later →
          ∃ set, (Operation.allEffects ks before).sortedSetAt? (.queue queue) = some set ∧
            commit.dequeued ((Transaction.empty id settings).stageAll before).nextTicket =
              set.first count) ∧
    ((∀ r ∈ needs, r.Holds ks) → ∀ key type,
      Keyspace.firstMismatch ks.types tx.commands = some (key, type) →
        after = ks ∧ result = .error (.wrongType key type)) := by
  intro tx ks needs result after
  have stageable : ∀ op ∈ ops, op.Stageable settings := (Transaction.deferred_stageAll.1 staged).1
  have commands : tx.commands = Operation.allCommands ops := by
    rw [show tx = _ from Transaction.stageAll_eq (.empty id settings) stageable]
    exact List.nil_append _
  obtain ⟨concluded, left⟩ := run_commit id calm stageable
  refine ⟨fun fails => ?_, fun holds fit => ?_, fun holds key type misfit => ?_⟩
  · obtain ⟨rejection, blamed, reported⟩ := Transaction.conclude_rejected id stageable ks
    rw [Keyspace.execute_rejected stageable fails] at concluded left
    exact ⟨left, rejection, concluded.trans reported, blamed, blamed.eq_aborted_iff⟩
  · rw [commands] at fit ⊢
    rw [Keyspace.execute_committed stageable holds fit] at concluded left
    have accepted : result = .ok ⟨id, ks.answers (Operation.allCommands ops)⟩ :=
      concluded.trans (Transaction.conclude_committed id stageable _)
    refine ⟨left, _, accepted, rfl, Keyspace.length_answers ks _, ?_, ?_⟩
    · intro first command second split
      exact (Keyspace.tracks_types ks).fits_all (split ▸ fit)
    · intro before queue count later split
      subst split
      exact Operation.dequeued_eq stageable fit
  · rw [commands] at misfit
    rw [Keyspace.execute_mistyped stageable holds misfit] at concluded left
    exact ⟨left, concluded⟩

/-- Two parties wait, and there is a text for the first one. -/
def stockedStore : Keyspace :=
  Keyspace.editSet ((∅ : Keyspace).insert (.entry Party "p") (.string "")) (.queue "ranked")
    fun set => (set.insert ⟨"p", .ofNat 0⟩).insert ⟨"q", .ofNat 1⟩

/-- A deletion and a dequeue of one member.  On an empty store both lack something, and the
queue is blamed.  On a stocked one both commands are applied, and the ticket is for the first
member. -/
theorem commit_of_deletion_and_dequeue :
    let tx := (Transaction.empty 1 .default).stageAll
      [.deleteKey (.entry Party "p"), .dequeue "ranked" 1]
    let rejected := (Client.commit tx).run Connection.serve ⟨.empty, .default, 1⟩
    let accepted := (Client.commit tx).run Connection.serve ⟨⟨stockedStore, [], 0⟩, .default, 1⟩
    (rejected.1 = .error (.rejected ⟨.insufficientEntries, some "queue:ranked"⟩) ∧
      rejected.2.database.keyspace = ∅) ∧
    (∃ commit, accepted.1 = .ok commit ∧ commit.applied = 2 ∧
      commit.dequeued ⟨1, 1⟩ = [⟨"p", .ofNat 0⟩]) ∧
    accepted.2.database.keyspace[Key.entry Party "p"]? = none ∧
    accepted.2.database.keyspace.members (.queue "ranked") = .ok [⟨"q", .ofNat 1⟩] := by
  intro tx rejected accepted
  let ops : List Operation := [.deleteKey (.entry Party "p"), .dequeue "ranked" 1]
  have short : ¬ (Requirement.longEnough "ranked" 1).Holds ∅ := by
    rintro ⟨set, shown, long⟩
    simp only [Keyspace.sortedSetAt?, Std.ExtTreeMap.getElem?_empty, Option.some.injEq] at shown
    rw [← shown] at long
    exact absurd long (by decide)
  obtain ⟨same, rejection, reported, blamed, -⟩ :=
    (commit_refines_table ⟨.empty, .default, 1⟩ 1 .default ops rfl rfl).1
      fun all => short (all _ (List.mem_cons_of_mem _ List.mem_cons_self))
  have needs : Operation.allRequirements ops =
      [.present (.entry Party "p")] ++ .longEnough "ranked" 1 :: [] := rfl
  have queue : rejection = ⟨.insufficientEntries, some "queue:ranked"⟩ :=
    blamed.eq_named needs (by decide) short
      (List.forall_mem_singleton.2 fun same => by contradiction)
      fun _ _ less => absurd less (Nat.not_lt_zero _)
  have there : (Requirement.present (.entry Party "p")).Holds stockedStore := by
    change stockedStore[Key.entry Party "p"]? ≠ none
    decide +kernel
  have long : (Requirement.longEnough "ranked" 1).Holds stockedStore := by
    have size : (stockedStore.sortedSetAt? (.queue "ranked")).map (·.size) = some 2 := by
      decide +kernel
    obtain ⟨set, shown, size⟩ := Option.map_eq_some_iff.1 size
    exact ⟨set, shown, size ▸ by decide⟩
  obtain ⟨left, commit, ended, -, applied, -, tickets⟩ :=
    (commit_refines_table ⟨⟨stockedStore, [], 0⟩, .default, 1⟩ 1 .default ops rfl rfl).2.1
      (List.forall_mem_cons.2 ⟨there, List.forall_mem_singleton.2 long⟩) (by decide +kernel)
  obtain ⟨set, shown, handed⟩ := tickets [.deleteKey (.entry Party "p")] "ranked" 1 [] rfl
  have first : ((Operation.allEffects stockedStore [.deleteKey (.entry Party "p")]).sortedSetAt?
      (.queue "ranked")).map (·.first 1) = some [⟨"p", .ofNat 0⟩] := by decide +kernel
  rw [shown] at first
  refine ⟨⟨queue ▸ reported, same⟩,
    ⟨commit, ended, applied, handed.trans (Option.some.inj first)⟩, ?_⟩
  have after : (Operation.allEffects stockedStore ops)[Key.entry Party "p"]? = none ∧
      (Operation.allEffects stockedStore ops).members (.queue "ranked") = .ok [⟨"q", .ofNat 1⟩] := by
    decide +kernel
  exact left.symm ▸ after

end Matchmaking
