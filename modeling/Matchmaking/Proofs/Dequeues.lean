import Matchmaking.Proofs.CanonicalOrder
import Matchmaking.Proofs.Commit
import Matchmaking.Proofs.Queues

/-!
# One dequeue of a queue

A dequeue stages a requirement and a command.  The requirement is checked on the store as
the transaction meets it, and the command runs where the operations in front of it lead.
If they leave the queue alone, both see one queue.  Then a dequeue in bounds takes exactly
the first members of the queue, or the commit fails with the store as it was
(`dequeue_pops_least`).

The other operations do not matter for this.  A pop changes no tracked type
(`Keyspace.firstMismatch_popFirst`), so their commands fit with the dequeue if they fit
without it.  And a queue that is too short is blamed before anything else that fails
(`Blamed.tooShort`).
-/

namespace Matchmaking

/-! ## One queue and other operations -/

namespace Keyspace

/-- A pop changes no tracked type, so the check of other commands does not see it. -/
theorem firstMismatch_popFirst {ts : Types} {key : Key} {count : Nat}
    (typed : ts key = none ∨ ts key = some .sortedSet) {first : List Command}
    (apart : ∀ command ∈ first, command.key ≠ key) (second : List Command) :
    firstMismatch ts (first ++ .popFirst key count :: second) =
      firstMismatch ts (first ++ second) := by
  induction first generalizing ts with
  | nil =>
    have fits : mismatch? (ts key) (.popFirst key count) = none := by
      rcases typed with typed | typed <;> rw [typed] <;> rfl
    -- The check writes back the type that it read.
    have same : ts.set key (ts key) = ts := by
      funext k
      by_cases here : k = key
      · rw [Types.set, if_pos here, here]
      · rw [Types.set, if_neg here]
    rw [List.nil_append, firstMismatch, show (Command.popFirst key count).key = key from rfl, fits]
    exact congrArg (firstMismatch · second) same
  | cons command first ih =>
    obtain ⟨here, rest⟩ := List.forall_mem_cons.1 apart
    have typed' (type : Option ValueType) : ts.set command.key type key = ts key :=
      if_neg (Ne.symm here)
    rw [List.cons_append, List.cons_append, firstMismatch, firstMismatch]
    split
    · rfl
    · exact ih (by rwa [typed']) rest

/-- An edit removes the key of a sorted set exactly if it leaves no members. -/
theorem contains_editSet {ks : Keyspace} {key : Key} {f : SortedSet → SortedSet} {set : SortedSet}
    (shown : ks.sortedSetAt? key = some set) (agrees : (f set).Agrees) :
    (ks.editSet key f).contains key = false ↔ (f set).members = [] := by
  rw [editSet, shown]
  dsimp only
  rw [contains_eq, getElem?_put, if_pos rfl, ← List.length_eq_zero_iff, agrees.length_members,
    SortedSet.size]
  cases left : (Value.sortedSet (f set)).isEmptyCollection with
  | true => simp [Std.ExtTreeMap.isEmpty_iff.1 left]
  | false =>
    have filled : (f set).scores ≠ ∅ := Std.ExtTreeMap.isEmpty_eq_false_iff.1 left
    simpa [← Std.ExtTreeMap.eq_empty_iff_size_eq_zero] using filled

end Keyspace

namespace Operation

/-- Only dequeues need queues to be long enough. -/
theorem longEnough_of_kind {ops : List Operation} {r : Requirement}
    (hr : r ∈ allRequirements ops) (kind : r.kind = .insufficientEntries) :
    ∃ queue count, .dequeue queue count ∈ ops ∧ r = .longEnough queue count := by
  obtain ⟨op, hop, hr⟩ := List.mem_flatMap.1 hr
  cases op with
  | dequeue queue count => exact ⟨queue, count, hop, List.mem_singleton.1 hr⟩
  | create entries =>
    obtain ⟨d, _, rfl⟩ := List.mem_map.1 hr
    contradiction
  | update entries | delete entries =>
    obtain ⟨d, _, hr⟩ := List.mem_flatMap.1 hr
    rcases List.mem_cons.1 hr with rfl | hr
    · contradiction
    · obtain rfl := List.mem_singleton.1 hr
      contradiction
  | deleteField hash field =>
    rcases List.mem_cons.1 hr with rfl | hr
    · contradiction
    · obtain rfl := List.mem_singleton.1 hr
      contradiction
  | enqueue _ | enqueueMembers _ _ | unqueue _ | updateHash _ _ =>
    exact absurd hr List.not_mem_nil
  | _ =>
    obtain rfl := List.mem_singleton.1 hr
    contradiction

theorem allRequirements_append_cons (before : List Operation) (op : Operation)
    (later : List Operation) :
    allRequirements (before ++ op :: later) =
      allRequirements before ++ (op.requirements ++ allRequirements later) := by
  rw [allRequirements, List.flatMap_append, List.flatMap_cons]
  rfl

section

variable {ks : Keyspace} {before later : List Operation} {queue : String} {set : SortedSet}
  (count : Nat)

/-- The requirements of a dequeue and of the operations around it. -/
theorem holds_around {count : Nat} (long : (Requirement.longEnough queue count).Holds ks)
    (holds : ∀ r ∈ allRequirements (before ++ later), r.Holds ks) :
    ∀ r ∈ allRequirements (before ++ .dequeue queue count :: later), r.Holds ks := by
  rw [allRequirements, List.flatMap_append] at holds
  obtain ⟨first, second⟩ := List.forall_mem_append.1 holds
  rw [allRequirements_append_cons]
  exact List.forall_mem_append.2 ⟨first, List.forall_mem_cons.2 ⟨long, second⟩⟩

/-- A dequeue of a queue that the operations in front of it leave alone passes the check
with them. -/
theorem firstMismatch_around (shown : ks.sortedSetAt? (.queue queue) = some set)
    (ahead : ∀ op ∈ before, Key.queue queue ∉ op.keys) :
    Keyspace.firstMismatch ks.types (allCommands (before ++ .dequeue queue count :: later)) =
      Keyspace.firstMismatch ks.types (allCommands (before ++ later)) := by
  have apart : ∀ command ∈ allCommands before, command.key ≠ .queue queue :=
    fun command h => key_ne_of_mem ahead h
  rw [allCommands_append_cons]
  exact (Keyspace.firstMismatch_popFirst (Keyspace.types_shown shown) apart _).trans
    (congrArg _ List.flatMap_append.symm)

/-- What a dequeue leaves in a queue that the operations around it leave alone. -/
theorem allEffects_around (shown : ks.sortedSetAt? (.queue queue) = some set)
    (agrees : set.Agrees) (apart : ∀ op ∈ before ++ later, Key.queue queue ∉ op.keys) :
    let after := allEffects ks (before ++ .dequeue queue count :: later)
    after.sortedSetAt? (.queue queue) = some (set.dropFirst count) ∧
      (after.contains (.queue queue) = false ↔ (set.dropFirst count).members = []) := by
  intro after
  obtain ⟨ahead, behind⟩ := List.forall_mem_append.1 apart
  have shown' : (allEffects ks before).sortedSetAt? (.queue queue) = some set :=
    (Keyspace.sortedSetAt?_congr (getElem?_allEffects_of_not_mem ahead ks)).trans shown
  have there : after[Key.queue queue]? =
      ((allEffects ks before).editSet (.queue queue) (·.dropFirst count))[Key.queue queue]? := by
    rw [show after = _ from allEffects_append ks before _]
    exact getElem?_allEffects_of_not_mem behind _
  have dropped := agrees.dropFirst count
  rw [Keyspace.sortedSetAt?_congr there, Keyspace.contains_eq, there, ← Keyspace.contains_eq]
  exact ⟨Keyspace.sortedSetAt?_editSet shown' dropped,
    Keyspace.contains_editSet (f := (·.dropFirst count)) shown' dropped⟩

end

end Operation

/-- A queue that is too short is blamed before anything else, and of several such queues
the one that comes first. -/
theorem Blamed.tooShort {ks : Keyspace} {first second : List Requirement} {queue : String}
    {count : Nat} {rejection : Rejection}
    (blamed : Blamed ks (first ++ .longEnough queue count :: second) rejection)
    (short : ¬ (Requirement.longEnough queue count).Holds ks) :
    ∃ label, rejection = ⟨.insufficientEntries, some label⟩ ∧
      ((∀ r ∈ first, r.kind = .insufficientEntries → r.Holds ks) →
        label = (Key.queue queue).text) := by
  have among : Requirement.longEnough queue count ∈ first ++ .longEnough queue count :: second :=
    List.mem_append_right first List.mem_cons_self
  cases blamed with
  | unnamed others =>
    refine absurd (others _ among fun snapshot => ?_) short
    contradiction
  | named before after r split nameable fails earlier lowest =>
    have kind : r.kind = .insufficientEntries := by
      cases kind : r.kind with
      | insufficientEntries => rfl
      | _ => exact absurd (lowest _ among (kind ▸ Nat.succ_pos _)) short
    refine ⟨r.label, by rw [kind], fun holds => ?_⟩
    -- The blamed requirement is that of the queue: one behind it is not the first that
    -- fails, and those in front of it hold.
    rcases List.append_eq_append_iff.1 split with ⟨rest, rfl, cut⟩ | ⟨rest, rfl, cut⟩
    · cases rest with
      | nil =>
        obtain ⟨rfl, -⟩ := List.cons.inj cut
        rfl
      | cons r' rest =>
        obtain ⟨rfl, -⟩ := List.cons.inj cut
        exact absurd (earlier _ (List.mem_append_right first List.mem_cons_self) kind.symm) short
    · cases rest with
      | nil =>
        obtain ⟨rfl, -⟩ := List.cons.inj cut
        rfl
      | cons r' rest =>
        obtain ⟨rfl, -⟩ := List.cons.inj cut
        exact absurd (holds _ (List.mem_append_right before List.mem_cons_self) kind) fails

/-! ## One dequeue -/

section

variable (id : Nat) {settings : Settings} {before later : List Operation} {queue : String}
  {count : Nat}

/-- A dequeue out of bounds leaves its error behind. -/
theorem Transaction.deferred_outOfBounds
    (others : ∀ op ∈ before ++ later, op.Stageable settings)
    (out : ¬ (0 < count ∧ count ≤ settings.maxDequeue)) :
    ((empty id settings).stageAll (before ++ .dequeue queue count :: later)).deferred =
      some (dequeueOutOfBounds queue count settings.maxDequeue) := by
  obtain ⟨ahead, behind⟩ := List.forall_mem_append.1 others
  have split : (empty id settings).stageAll (before ++ .dequeue queue count :: later) =
      (((empty id settings).stageAll before).stage (.dequeue queue count)).stageAll later :=
    List.foldl_append
  have refused : ((empty id settings).stageAll before).stage (.dequeue queue count) =
      ((empty id settings).stageAll before).fail
        (dequeueOutOfBounds queue count settings.maxDequeue) := by
    rw [stageAll_eq (empty id settings) ahead]
    exact if_neg out
  rw [split, refused, stageAll_eq (empty id settings) ahead, stageAll_eq _ behind]
  rfl

/-- A dequeue of a queue that is too short fails the commit and is blamed, unless a dequeue
in front of it is. -/
theorem run_commit_tooShort {c : Connection} (calm : c.database.faults.head?.join = none)
    (staged : ∀ op ∈ before ++ .dequeue queue count :: later, op.Stageable settings)
    (short : ¬ (Requirement.longEnough queue count).Holds c.database.keyspace) :
    let ks := c.database.keyspace
    let tx := (Transaction.empty id settings).stageAll (before ++ .dequeue queue count :: later)
    let run := (Client.commit tx).run Connection.serve c
    run.2.database.keyspace = ks ∧
      ∃ label, run.1 = .error (.rejected ⟨.insufficientEntries, some label⟩) ∧
        ((∀ q n, .dequeue q n ∈ before → (Requirement.longEnough q n).Holds ks) →
          label = (Key.queue queue).text) := by
  intro ks tx run
  have rejected : ¬ ∀ r ∈ Operation.allRequirements (before ++ .dequeue queue count :: later),
      r.Holds ks := by
    rw [Operation.allRequirements_append_cons]
    exact fun all => short (all _ (List.mem_append_right _ List.mem_cons_self))
  obtain ⟨concluded, same⟩ := run_commit id calm staged
  rw [Keyspace.execute_rejected staged rejected] at concluded same
  obtain ⟨rejection, blamed, reported⟩ := Transaction.conclude_rejected id staged ks
  rw [Operation.allRequirements_append_cons] at blamed
  obtain ⟨label, rfl, name⟩ := blamed.tooShort short
  refine ⟨same, label, concluded.trans reported, fun holds => name fun r hr kind => ?_⟩
  obtain ⟨q, n, mem, rfl⟩ := Operation.longEnough_of_kind hr kind
  exact holds q n mem

end

/-- A transaction with one dequeue of a queue, and other operations that do not touch the
queue and can be staged.

If the dequeue is out of bounds, the commit fails without asking the store.  If the queue
is too short, nothing is written and the queue is blamed, whatever else fails; with
several dequeues of different queues, the first that fails is blamed.  If the other
requirements hold and the other commands fit, the commit succeeds.  The ticket then names
the least members of the queue in ascending order, exactly as many as were asked for, the
queue keeps the others, and its key is gone if there are none. -/
theorem dequeue_pops_least (c : Connection) (id : Nat) (settings : Settings) (queue : String)
    (count : Nat) (before later : List Operation) {set : SortedSet}
    (calm : c.database.faults.head?.join = none)
    (shown : c.database.keyspace.sortedSetAt? (.queue queue) = some set) (agrees : set.Agrees)
    (others : ∀ op ∈ before ++ later, op.Stageable settings ∧ Key.queue queue ∉ op.keys) :
    let ks := c.database.keyspace
    let tx := (Transaction.empty id settings).stageAll (before ++ .dequeue queue count :: later)
    let ticket := ((Transaction.empty id settings).stageAll before).nextTicket
    let run := (Client.commit tx).run Connection.serve c
    let after := run.2.database.keyspace
    (count = 0 ∨ settings.maxDequeue < count →
      run = (.error (Transaction.dequeueOutOfBounds queue count settings.maxDequeue), c)) ∧
    (0 < count → count ≤ settings.maxDequeue → set.size < count →
      after = ks ∧ ∃ label, run.1 = .error (.rejected ⟨.insufficientEntries, some label⟩) ∧
        ((∀ q n, .dequeue q n ∈ before → (Requirement.longEnough q n).Holds ks) →
          label = (Key.queue queue).text)) ∧
    (0 < count → count ≤ settings.maxDequeue → count ≤ set.size →
      (∀ r ∈ Operation.allRequirements (before ++ later), r.Holds ks) →
      Keyspace.firstMismatch ks.types (Operation.allCommands (before ++ later)) = none →
      ∃ commit popped rest, run.1 = .ok commit ∧
        set.members = popped ++ rest ∧ (popped ++ rest).Pairwise ScoredMember.Before ∧
        popped.length = count ∧ commit.dequeued ticket = popped ∧
        after.members (.queue queue) = .ok rest ∧
        (after.contains (.queue queue) = false ↔ rest = [])) := by
  intro ks tx ticket run after
  have stageable : ∀ op ∈ before ++ later, op.Stageable settings := fun op h => (others op h).1
  have apart : ∀ op ∈ before ++ later, Key.queue queue ∉ op.keys := fun op h => (others op h).2
  obtain ⟨ahead, behind⟩ := List.forall_mem_append.1 apart
  have staged (positive : 0 < count) (bounded : count ≤ settings.maxDequeue) :
      ∀ op ∈ before ++ .dequeue queue count :: later, op.Stageable settings := by
    obtain ⟨first, second⟩ := List.forall_mem_append.1 stageable
    exact List.forall_mem_append.2 ⟨first, List.forall_mem_cons.2 ⟨⟨positive, bounded⟩, second⟩⟩
  refine ⟨fun out => ?_, fun positive bounded short => ?_,
    fun positive bounded long holds fit => ?_⟩
  · have refused : ¬ (0 < count ∧ count ≤ settings.maxDequeue) := by omega
    have deferred :
        tx.deferred = some (Transaction.dequeueOutOfBounds queue count settings.maxDequeue) :=
      Transaction.deferred_outOfBounds id stageable refused
    simp only [run, Client.commit, Transaction.submission, deferred, Procedure.run]
  · refine run_commit_tooShort id calm (staged positive bounded) ?_
    rintro ⟨set', shown', long⟩
    obtain rfl := Option.some.inj (shown'.symm.trans shown)
    omega
  · have holds' := Operation.holds_around ⟨set, shown, long⟩ holds
    have fit' := (Operation.firstMismatch_around count shown ahead).trans fit
    obtain ⟨concluded, left⟩ := run_commit id calm (staged positive bounded)
    rw [Keyspace.execute_committed (staged positive bounded) holds' fit'] at concluded left
    obtain ⟨set', shown', popped⟩ :=
      @Operation.dequeued_eq ks id _ _ _ _ _ (staged positive bounded) fit'
    have same : ks[Key.queue queue]? = (Operation.allEffects ks before)[Key.queue queue]? :=
      (Operation.getElem?_allEffects_of_not_mem ahead ks).symm
    obtain rfl : set' = set :=
      Option.some.inj (shown'.symm.trans ((Keyspace.sortedSetAt?_congr same).symm.trans shown))
    obtain ⟨rest, gone⟩ := Operation.allEffects_around count shown agrees apart
    have left : after = Operation.allEffects c.database.keyspace _ := left
    rw [← left] at rest gone
    refine ⟨_, set'.first count, (set'.dropFirst count).members,
      concluded.trans (Transaction.conclude_committed id (staged positive bounded) _),
      (List.take_append_drop _ _).symm, ?_, ?_, popped, Keyspace.members_eq rest, gone⟩
    · rw [SortedSet.first, SortedSet.dropFirst, List.take_append_drop]
      exact agrees.sorted.imp ScoredMember.precedes_iff_before.1
    · rw [SortedSet.first, List.length_take, agrees.length_members, Nat.min_eq_left long]

/-- A member of a queue moves to another one in one transaction, and its key goes. -/
theorem only_member_changes_queue :
    let queue := SortedSet.empty.insert ⟨"p", ⟨0⟩⟩
    let c : Connection :=
      ⟨{ Database.empty with
        keyspace := Std.ExtTreeMap.insert ∅ (.queue "ranked") (.sortedSet queue) }, .default, 1⟩
    let run := (Client.commit ((Transaction.empty 1 .default).stageAll
      [.requireNoField ⟨"locks"⟩ "p", .dequeue "ranked" 1,
        .enqueueMembers "casual" [⟨"p", ⟨0⟩⟩]])).run Connection.serve c
    ∃ commit, run.1 = .ok commit ∧ commit.dequeued ⟨1, 0⟩ = [⟨"p", ⟨0⟩⟩] ∧
      run.2.database.keyspace.contains (.queue "ranked") = false := by
  intro queue c run
  have shown : c.database.keyspace.sortedSetAt? (.queue "ranked") = some queue := by rfl
  have others : ∀ op ∈ [.requireNoField ⟨"locks"⟩ "p"] ++
      [Operation.enqueueMembers "casual" [⟨"p", ⟨0⟩⟩]],
      op.Stageable .default ∧ Key.queue "ranked" ∉ op.keys := by
    intro op hop
    rcases List.mem_cons.1 hop with rfl | hop
    · exact ⟨trivial, by decide⟩
    · obtain rfl := List.mem_singleton.1 hop
      exact ⟨trivial, by decide⟩
  have unlocked : ∀ r ∈ Operation.allRequirements ([.requireNoField ⟨"locks"⟩ "p"] ++
      [.enqueueMembers "casual" [⟨"p", ⟨0⟩⟩]]), r.Holds c.database.keyspace := by
    intro r hr
    obtain rfl := List.mem_singleton.1 hr
    intro fields locks
    obtain rfl : (∅ : TextMap) = fields := Option.some.inj locks
    exact Std.ExtTreeMap.not_mem_empty
  obtain ⟨commit, popped, rest, committed, split, -, one, handed, -, gone⟩ :=
    (dequeue_pops_least c 1 .default "ranked" 1 _ _ rfl shown (SortedSet.agrees_empty.insert _)
      others).2.2 (by decide) (by decide) (by decide) unlocked (by rfl)
  have whole : queue.members = [⟨"p", ⟨0⟩⟩] := by rfl
  rw [whole] at split
  obtain ⟨m, rfl⟩ := List.length_eq_one_iff.1 one
  obtain ⟨rfl, rfl⟩ := List.cons.inj split
  exact ⟨commit, committed, handed, gone.2 rfl⟩

end Matchmaking
