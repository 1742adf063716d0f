import Matchmaking.Proofs.Commit
import Matchmaking.Proofs.Queues
import Matchmaking.Proofs.Representation

/-!
# Transactions that dequeue repeatedly

Every dequeue of a transaction requires its queue to be long enough.  All requirements
are checked on the store as the transaction meets it.  But the commands run one after
another, and each pop sees what the commands in front of it left.  So a dequeue may hand
out fewer members than it asks for (`second_dequeue_hands_out_nothing`).

What holds of every commit has two parts (`dequeues_hand_out_what_is_left`).

* A dequeue hands out the first members that are left, as many as it asks for if there
  are so many.  The commands in front of it take out what they name at most
  (`Command.allTake`), so a queue that is longer by that much is long enough
  (`Keyspace.longEnough_editAll`).
* What a dequeue took out of its queue is not there (`Keyspace.Lacks`), and stays away
  command by command until it is enqueued again.
-/

namespace Matchmaking

/-! ## What commands take out of a queue -/

namespace Command

/-- The most members that a command takes out of the sorted set at a key. -/
def takes (key : Key) : Command → Nat
  | removeMember k _ => if k = key then 1 else 0
  | popFirst k count => if k = key then count else 0
  | _ => 0

/-- The most members that commands take out of the sorted set at a key. -/
def allTake (key : Key) : List Command → Nat
  | [] => 0
  | command :: commands => command.takes key + allTake key commands

/-- If the command addresses a key, it is as a sorted set. -/
def Serves (key : Key) (command : Command) : Prop :=
  command.key = key → Keyspace.requiredType command = some .sortedSet

end Command

namespace SortedSet

/-- A removal takes one member at most. -/
theorem size_le_size_erase (s : SortedSet) (member : String) :
    s.size ≤ (s.erase member).size + 1 := by
  unfold erase remove
  split
  · exact Std.ExtTreeMap.size_le_size_erase
  · exact Nat.le_succ s.size

theorem Agrees.size_dropFirst {s : SortedSet} (h : s.Agrees) (count : Nat) :
    (s.dropFirst count).size = s.size - count := by
  rw [← (h.dropFirst count).length_members, ← h.length_members]
  exact List.length_drop

end SortedSet

namespace Keyspace

variable {ks : Keyspace} {command : Command} {key : Key} {queue : String} {n : Nat}

/-- A queue stays long enough under an edit that takes out so many members at most. -/
theorem longEnough_editSet (form : ks.WellFormed) {f : SortedSet → SortedSet} {taken : Nat}
    (agrees : ∀ set : SortedSet, set.Agrees → (f set).Agrees)
    (bound : ∀ set : SortedSet, set.Agrees → set.size ≤ (f set).size + taken)
    (long : (Requirement.longEnough queue (n + taken)).Holds ks) :
    (Requirement.longEnough queue n).Holds (ks.editSet (.queue queue) f) := by
  obtain ⟨set, shown, long⟩ := long
  have indexed : set.Agrees := form.agrees_shown shown
  refine ⟨f set, sortedSetAt?_editSet shown (agrees set indexed), ?_⟩
  have := bound set indexed
  omega

/-- A queue that is longer by what a command takes out is long enough behind it. -/
theorem longEnough_edit (form : ks.WellFormed) (serves : command.Serves (.queue queue))
    (long : (Requirement.longEnough queue (n + command.takes (.queue queue))).Holds ks) :
    (Requirement.longEnough queue n).Holds (ks.edit command) := by
  by_cases here : command.key = .queue queue
  · cases command with
    | addMember k m =>
      obtain rfl : k = .queue queue := here
      exact longEnough_editSet form (fun _ agrees => agrees.insert m)
        (fun _ _ => Std.ExtTreeMap.size_le_size_insert) long
    | removeMember k member =>
      obtain rfl : k = .queue queue := here
      rw [Command.takes, if_pos rfl] at long
      exact longEnough_editSet form (fun _ agrees => agrees.erase member)
        (fun set _ => set.size_le_size_erase member) long
    | popFirst k count =>
      obtain rfl : k = .queue queue := here
      rw [Command.takes, if_pos rfl] at long
      refine longEnough_editSet form (fun _ agrees => agrees.dropFirst count)
        (fun set agrees => ?_) long
      rw [agrees.size_dropFirst]
      omega
    | setString k value => exact absurd (serves here) (Option.some_ne_none _).symm
    | delete k => exact absurd (serves here) (Option.some_ne_none _).symm
    | setFields k updates => exact absurd (Option.some.inj (serves here)) (by decide)
    | deleteField k field => exact absurd (Option.some.inj (serves here)) (by decide)
  · -- A command on another key leaves the queue as it is.
    obtain ⟨set, shown, long⟩ := long
    refine ⟨set, (sortedSetAt?_congr (getElem?_edit_of_ne here)).trans shown, ?_⟩
    omega

/-- A queue that is longer by what commands take out is long enough behind them. -/
theorem longEnough_editAll (form : ks.WellFormed) {commands : List Command}
    (serve : ∀ command ∈ commands, command.Serves (.queue queue))
    (long : (Requirement.longEnough queue (n + Command.allTake (.queue queue) commands)).Holds ks) :
    (Requirement.longEnough queue n).Holds (ks.editAll commands) := by
  induction commands generalizing ks with
  | nil => exact long
  | cons command commands ih =>
    obtain ⟨here, rest⟩ := List.forall_mem_cons.1 serve
    refine ih (form.edit command) rest (longEnough_edit form here ?_)
    rwa [Command.allTake, Nat.add_comm (Command.takes _ _), ← Nat.add_assoc] at long

/-! ## Members that are away -/

/-- No sorted set at a key holds a member. -/
def Lacks (ks : Keyspace) (key : Key) (member : String) : Prop :=
  ∀ set, ks.sortedSetAt? key = some set → set.score? member = none

/-- An edited key shows the edited sorted set, or is gone. -/
theorem shown_editSet {f : SortedSet → SortedSet} {after : SortedSet}
    (shown : (ks.editSet key f).sortedSetAt? key = some after) :
    after = .empty ∨ ∃ set, ks.sortedSetAt? key = some set ∧ after = f set := by
  unfold editSet at shown
  split at shown
  next set before =>
    rw [sortedSetAt?, getElem?_put, if_pos rfl] at shown
    split at shown
    next => exact .inl (Option.some.inj shown).symm
    next stored =>
      split at stored
      · contradiction
      · injection stored with stored
        injection stored with stored
        exact .inr ⟨set, before, (Option.some.inj shown).symm.trans stored.symm⟩
    next => contradiction
  next none =>
    rw [none] at shown
    contradiction

/-- An edit of a hash makes no sorted set. -/
theorem shown_editHash {f : TextMap → TextMap} {after : SortedSet}
    (shown : (ks.editHash key f).sortedSetAt? key = some after) :
    after = .empty ∨ ks.sortedSetAt? key = some after := by
  unfold editHash at shown
  split at shown
  next fields before =>
    rw [sortedSetAt?, getElem?_put, if_pos rfl] at shown
    split at shown
    next => exact .inl (Option.some.inj shown).symm
    next stored =>
      split at stored
      · contradiction
      · injection stored with stored
        contradiction
    next => contradiction
  next => exact .inr shown

variable {member : String}

/-- A member that is away stays away unless the command adds it. -/
theorem Lacks.edit (lacks : ks.Lacks key member)
    (other : ∀ m, command = .addMember key m → m.member ≠ member) :
    (ks.edit command).Lacks key member := by
  intro after shown
  have none : SortedSet.empty.score? member = none := Std.ExtTreeMap.getElem?_empty
  by_cases here : command.key = key
  · subst here
    cases command with
    | setString key value =>
      have stored : (ks.edit (.setString key value))[key]? = some (.string value) := by
        simp [Keyspace.edit]
      rw [sortedSetAt?, show (Command.setString key value).key = key from rfl, stored] at shown
      contradiction
    | delete key =>
      have stored : (ks.edit (.delete key))[key]? = .none := by simp [Keyspace.edit]
      rw [sortedSetAt?, show (Command.delete key).key = key from rfl, stored] at shown
      exact Option.some.inj shown ▸ none
    | addMember key m =>
      rcases shown_editSet shown with rfl | ⟨set, before, rfl⟩
      · exact none
      · simp [other m rfl, lacks set before]
    | removeMember key removed =>
      rcases shown_editSet shown with rfl | ⟨set, before, rfl⟩
      · exact none
      · simp [lacks set before]
    | popFirst key count =>
      rcases shown_editSet shown with rfl | ⟨set, before, rfl⟩
      · exact none
      · rw [SortedSet.score?_dropFirst, lacks set before, ite_self]
    | setFields key updates =>
      cases updates with
      | nil => exact lacks after shown
      | cons update updates =>
        rcases shown_editHash shown with rfl | before
        · exact none
        · exact lacks after before
    | deleteField key field =>
      rcases shown_editHash shown with rfl | before
      · exact none
      · exact lacks after before
  · exact lacks after ((sortedSetAt?_congr (getElem?_edit_of_ne here)).symm.trans shown)

/-- A member that is away stays away unless one of the commands adds it. -/
theorem Lacks.editAll (lacks : ks.Lacks key member) {commands : List Command}
    (others : ∀ m, .addMember key m ∈ commands → m.member ≠ member) :
    (ks.editAll commands).Lacks key member := by
  induction commands generalizing ks with
  | nil => exact lacks
  | cons command commands ih =>
    refine ih (lacks.edit fun m here => ?_) fun m there => others m (List.mem_cons_of_mem _ there)
    exact others m (here ▸ List.mem_cons_self)

/-- What a pop took out is away. -/
theorem lacks_popFirst {set : SortedSet} {count : Nat} (shown : ks.sortedSetAt? key = some set)
    (popped : member ∈ (set.first count).map (·.member)) :
    (ks.edit (.popFirst key count)).Lacks key member := by
  intro after shown'
  rcases shown_editSet shown' with rfl | ⟨set', before, rfl⟩
  · exact Std.ExtTreeMap.getElem?_empty
  · obtain rfl := Option.some.inj (before.symm.trans shown)
    rw [SortedSet.score?_dropFirst, if_pos popped]

end Keyspace

/-! ## Operations that enqueue -/

namespace Operation

/-- The operation puts a member into a queue. -/
def Enqueues (queue member : String) : Operation → Prop
  | .enqueue places => ∃ p ∈ places, p.queue = queue ∧ p.member.member = member
  | .enqueueMembers q members => q = queue ∧ ∃ m ∈ members, m.member = member
  | _ => False

/-- Only operations that enqueue add members to queues. -/
theorem enqueues_of_mem {op : Operation} {queue : String} {m : ScoredMember}
    (h : .addMember (.queue queue) m ∈ op.commands) : op.Enqueues queue m.member := by
  cases op with
  | create _ | update _ =>
    obtain ⟨_, _, _, same⟩ := mem_writeCommands h
    contradiction
  | delete _ | unqueue _ =>
    obtain ⟨_, _, same⟩ := List.mem_map.1 h
    contradiction
  | enqueue places =>
    obtain ⟨p, hp, same⟩ := List.mem_map.1 h
    injection same with keys members
    exact ⟨p, hp, Key.queue_inj.1 keys, congrArg ScoredMember.member members⟩
  | enqueueMembers q members =>
    obtain ⟨m', hm', same⟩ := List.mem_map.1 h
    injection same with keys members
    exact ⟨Key.queue_inj.1 keys, m', hm', congrArg ScoredMember.member members⟩
  | updateHash hash fields =>
    obtain ⟨field, _, same⟩ := List.mem_map.1 h
    unfold Transaction.fieldCommand at same
    split at same <;> contradiction
  | deleteKey _ | dequeue _ _ | createHash _ _ | deleteField _ _ =>
    have same := List.mem_singleton.1 h
    contradiction
  | _ => exact absurd h List.not_mem_nil

end Operation

/-! ## Commits -/

section

variable {c : Connection} {id : Nat} {settings : Settings} {ops : List Operation} {commit : Commit}
  (calm : c.database.faults.head?.join = none) (form : c.database.keyspace.WellFormed)
  (committed : ((Client.commit ((Transaction.empty id settings).stageAll ops)).run
    Connection.serve c).1 = .ok commit)

include calm form committed

/-- A dequeue hands out the first members of the sorted set that the operations in front of
it left. -/
theorem dequeued_first {before later : List Operation} {queue : String} {count : Nat}
    (split : ops = before ++ .dequeue queue count :: later) :
    ∃ left, (Operation.allEffects c.database.keyspace before).sortedSetAt? (.queue queue) =
        some left ∧ left.Agrees ∧
      commit.dequeued ((Transaction.empty id settings).stageAll before).nextTicket =
        left.first count := by
  obtain ⟨staged, -, fit, rfl⟩ := run_commit_ok calm committed
  subst split
  obtain ⟨left, shown, handed⟩ := @Operation.dequeued_eq _ id _ _ _ _ _ staged fit
  have form' : (Operation.allEffects c.database.keyspace before).WellFormed :=
    Operation.editAll_allCommands before _ ▸ form.editAll _
  exact ⟨left, shown, form'.agrees_shown shown, handed⟩

/-- What a dequeue hands out a later one of the queue does not, unless it was enqueued in
between. -/
theorem enqueued_between {before between later : List Operation} {queue member : String}
    {count count' : Nat}
    (split : ops = before ++ .dequeue queue count :: (between ++ .dequeue queue count' :: later))
    (first : member ∈ commit.dequeuedIds
      ((Transaction.empty id settings).stageAll before).nextTicket)
    (second : member ∈ commit.dequeuedIds ((Transaction.empty id settings).stageAll
      (before ++ .dequeue queue count :: between)).nextTicket) :
    ∃ op ∈ between, op.Enqueues queue member := by
  obtain ⟨set, shown, -, handed⟩ := dequeued_first calm form committed split
  have split' : ops =
      (before ++ .dequeue queue count :: between) ++ .dequeue queue count' :: later := by
    simp [split]
  obtain ⟨set', shown', agrees', handed'⟩ := dequeued_first calm form committed split'
  rw [Commit.dequeuedIds, handed] at first
  rw [Commit.dequeuedIds, handed'] at second
  by_contra nobody
  -- Between the dequeues no command adds the member that the first one popped.
  have away : (Operation.allEffects c.database.keyspace
      (before ++ .dequeue queue count :: between)).Lacks (.queue queue) member := by
    rw [allEffects_append, ← Operation.editAll_allCommands]
    refine (Keyspace.lacks_popFirst shown first).editAll fun m adds same => nobody ?_
    obtain ⟨op, hop, adds⟩ := List.mem_flatMap.1 adds
    exact ⟨op, hop, same ▸ Operation.enqueues_of_mem adds⟩
  obtain ⟨m, hm, rfl⟩ := List.mem_map.1 second
  have there := agrees'.mem_members.1 (List.mem_of_mem_take hm)
  rw [away set' shown'] at there
  contradiction

end

/-- What the dequeues of a commit hand out.

A dequeue hands out the first members that the operations in front of it left in its
queue, each once.  These are as many as it asks for, unless fewer were left.  Since its
requirement held, that takes commands in front of it that take members out of the queue
or replace it.  If they serve the queue, and the queue was longer by what they take at
most, the dequeue hands out exactly as many members as it asks for.

No member is handed out by two dequeues of a queue, unless an operation between them
enqueued it again. -/
theorem dequeues_hand_out_what_is_left (c : Connection) (id : Nat) (settings : Settings)
    (ops : List Operation) (calm : c.database.faults.head?.join = none)
    (form : c.database.keyspace.WellFormed) {commit : Commit}
    (committed : ((Client.commit ((Transaction.empty id settings).stageAll ops)).run
      Connection.serve c).1 = .ok commit) :
    let ks := c.database.keyspace
    let ticket (before : List Operation) :=
      ((Transaction.empty id settings).stageAll before).nextTicket
    (∀ before queue count later, ops = before ++ .dequeue queue count :: later →
      ∃ held left, ks.members (.queue queue) = .ok held ∧ count ≤ held.length ∧
        (Operation.allEffects ks before).members (.queue queue) = .ok left ∧
        commit.dequeued (ticket before) = left.take count ∧
        (commit.dequeuedIds (ticket before)).Nodup ∧
        ((commit.dequeuedIds (ticket before)).length = count ↔ count ≤ left.length) ∧
        ((∀ command ∈ Operation.allCommands before, command.Serves (.queue queue)) →
          count + Command.allTake (.queue queue) (Operation.allCommands before) ≤ held.length →
          (commit.dequeuedIds (ticket before)).length = count)) ∧
    (∀ before queue count between count' later,
      ops = before ++ .dequeue queue count :: (between ++ .dequeue queue count' :: later) →
      ∀ member ∈ commit.dequeuedIds (ticket before),
        member ∈ commit.dequeuedIds (ticket (before ++ .dequeue queue count :: between)) →
        ∃ op ∈ between, op.Enqueues queue member) := by
  intro ks ticket
  refine ⟨fun before queue count later split => ?_,
    fun before queue count between count' later split member first second =>
      enqueued_between calm form committed split first second⟩
  obtain ⟨left, shown, agrees, handed⟩ := dequeued_first calm form committed split
  obtain ⟨-, holds, -, -⟩ := run_commit_ok calm committed
  have among : .dequeue queue count ∈ ops :=
    split ▸ List.mem_append_right before List.mem_cons_self
  obtain ⟨held, shownHeld, long⟩ : (Requirement.longEnough queue count).Holds ks :=
    holds _ (List.mem_flatMap.2 ⟨_, among, List.mem_cons_self⟩)
  have heldLength := (form.agrees_shown shownHeld).length_members
  have length : (commit.dequeuedIds (ticket before)).length = min count left.members.length := by
    rw [Commit.dequeuedIds, List.length_map, handed]
    exact List.length_take
  refine ⟨held.members, left.members, Keyspace.members_eq shownHeld, heldLength ▸ long,
    Keyspace.members_eq shown, handed, ?_, ?_, fun serve enough => ?_⟩
  · rw [Commit.dequeuedIds, handed]
    exact List.pairwise_map.2 (agrees.distinct.sublist (List.take_sublist _ _))
  · rw [length]
    omega
  · have longer : (Requirement.longEnough queue (count + _)).Holds ks :=
      ⟨held, shownHeld, heldLength ▸ enough⟩
    obtain ⟨left', shown', long'⟩ := Keyspace.longEnough_editAll form serve longer
    rw [Operation.editAll_allCommands] at shown'
    obtain rfl := Option.some.inj (shown'.symm.trans shown)
    rw [length, agrees.length_members]
    omega

/-- A store whose queue holds one member. -/
def oneWaiting : Connection :=
  let queue := SortedSet.empty.insert ⟨"p", ⟨0⟩⟩
  ⟨⟨Std.ExtTreeMap.insert ∅ (.queue "ranked") (.sortedSet queue), [], 0⟩, .default, 1⟩

theorem wellFormed_oneWaiting : oneWaiting.database.keyspace.WellFormed :=
  Keyspace.wellFormed_empty.insert (Keyspace.isEmptyCollection_insert _ _)
    (SortedSet.agrees_empty.insert _) _

/-- The only member of a queue is handed out, put back and handed out again. -/
theorem handed_out_twice_after_return :
    let tx := Transaction.empty 1 .default
    let back : Operation := .enqueueMembers "ranked" [⟨"p", ⟨0⟩⟩]
    let ops := [.dequeue "ranked" 1, back, .dequeue "ranked" 1]
    ∃ commit, ((Client.commit (tx.stageAll ops)).run Connection.serve oneWaiting).1 = .ok commit ∧
      (commit.dequeuedIds tx.nextTicket).length = 1 ∧
      commit.dequeuedIds tx.nextTicket =
        commit.dequeuedIds (tx.stageAll [.dequeue "ranked" 1, back]).nextTicket ∧
      ∃ op ∈ [back], op.Enqueues "ranked" "p" := by
  intro tx back ops
  have committed : ((Client.commit (tx.stageAll ops)).run Connection.serve oneWaiting).1 =
      .ok ⟨1, [.popped [⟨"p", ⟨0⟩⟩], .done, .popped [⟨"p", ⟨0⟩⟩]]⟩ := by rfl
  obtain ⟨handed, again⟩ := dequeues_hand_out_what_is_left oneWaiting 1 .default ops rfl
    wellFormed_oneWaiting committed
  obtain ⟨held, left, -, long, -, -, -, -, exact⟩ := handed [] "ranked" 1 _ rfl
  refine ⟨_, committed, exact (fun _ h => absurd h List.not_mem_nil) long, by rfl, ?_⟩
  exact again [] "ranked" 1 [back] 1 [] rfl "p" (by decide) (by decide)

/-- Two dequeues ask for one member each, and the queue holds one.  Both requirements hold,
the commit succeeds, and the second dequeue hands out nothing. -/
theorem second_dequeue_hands_out_nothing :
    let tx := Transaction.empty 1 .default
    let ops : List Operation := [.dequeue "ranked" 1, .dequeue "ranked" 1]
    ∃ commit, ((Client.commit (tx.stageAll ops)).run Connection.serve oneWaiting).1 = .ok commit ∧
      commit.dequeuedIds tx.nextTicket = ["p"] ∧
      commit.dequeuedIds (tx.stageAll [.dequeue "ranked" 1]).nextTicket = [] := by
  intro tx ops
  exact ⟨⟨1, [.popped [⟨"p", ⟨0⟩⟩], .popped []]⟩, by rfl, by rfl, by rfl⟩

end Matchmaking
