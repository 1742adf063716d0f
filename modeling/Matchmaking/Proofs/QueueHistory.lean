import Mathlib.Data.List.Induction
import Matchmaking.Proofs.Commit
import Matchmaking.Proofs.Queues

/-!
# The history of queues

A transaction is staged by its client alone and reaches the store when it is
committed.  So a run of any number of clients is the order in which the store
executes their commits (`Chronicle.run`).  A commit may fail, and then nothing
happens.

What committed transactions did to queues is a *history*: members were put into a
queue, removed from one, or handed out by a dequeue.  A transaction contributes its
operations in order, and what a dequeue handed out is what its ticket names in the
commit (`Commit.events`).

A history *leaves* a member in a queue at a score if the last that happened to the
member in the queue was an enqueue at that score.  The queues of a store hold
exactly what the history leaves in them (`History.Tells`), as long as nothing else
writes queue keys (`Operation.LeavesQueues`).
-/

namespace Matchmaking

/-! ## Histories -/

/-- What a committed transaction did to a member of a queue. -/
inductive QueueEvent where
  /-- The member was put into the queue or moved to another score. -/
  | enqueued (queue : String) (member : ScoredMember)
  /-- The member was removed, if it was there. -/
  | removed (queue member : String)
  /-- A dequeue handed out the member. -/
  | handedOut (queue : String) (member : ScoredMember)

/-- The queue and the member of an event. -/
def QueueEvent.subject : QueueEvent → String × String
  | enqueued queue m => (queue, m.member)
  | removed queue member => (queue, member)
  | handedOut queue m => (queue, m.member)

/-- What committed transactions did to queues, in order. -/
abbrev History := List QueueEvent

namespace History

/-- The last that happened to a member in a queue was that it was put there at its
score. -/
def Leaves (h : History) (queue : String) (m : ScoredMember) : Prop :=
  ∃ before after, h = before ++ .enqueued queue m :: after ∧
    ∀ e ∈ after, e.subject ≠ (queue, m.member)

variable {h es : History} {queue q : String} {m : ScoredMember}

/-- Later events decide if there is one about the member, and earlier ones otherwise. -/
theorem leaves_append : (h ++ es).Leaves q m ↔
    es.Leaves q m ∨ (∀ e ∈ es, e.subject ≠ (q, m.member)) ∧ h.Leaves q m := by
  constructor
  · rintro ⟨before, after, split, last⟩
    rcases List.append_eq_append_iff.1 split with ⟨rest, rfl, rfl⟩ | ⟨rest, rfl, cut⟩
    · exact .inl ⟨rest, after, rfl, last⟩
    · cases rest with
      | nil => exact .inl ⟨[], after, cut.symm, last⟩
      | cons e rest =>
        obtain ⟨rfl, rfl⟩ := List.cons.inj cut
        obtain ⟨first, later⟩ := List.forall_mem_append.1 last
        exact .inr ⟨later, before, rest, rfl, first⟩
  · rintro (⟨before, after, rfl, last⟩ | ⟨later, before, after, rfl, last⟩)
    · exact ⟨h ++ before, after, (List.append_assoc _ _ _).symm, last⟩
    · refine ⟨before, after ++ es, List.append_assoc _ _ _, ?_⟩
      exact List.forall_mem_append.2 ⟨last, later⟩

/-- Events that are no enqueues of a member leave it nowhere. -/
theorem not_leaves (other : QueueEvent.enqueued q m ∉ h) : ¬ h.Leaves q m := by
  rintro ⟨before, after, rfl, -⟩
  exact other (List.mem_append_right before List.mem_cons_self)

theorem leaves_singleton {e : QueueEvent} : Leaves [e] q m ↔ e = .enqueued q m := by
  constructor
  · rintro ⟨before, after, split, -⟩
    cases before with
    | nil => exact (List.cons.inj split).1
    | cons _ _ => simp at split
  · rintro rfl
    exact ⟨[], [], rfl, fun e he => absurd he List.not_mem_nil⟩

/-- The last event decides if it is about the member. -/
theorem leaves_concat {e : QueueEvent} : (h ++ [e]).Leaves q m ↔
    e = .enqueued q m ∨ e.subject ≠ (q, m.member) ∧ h.Leaves q m := by
  rw [leaves_append, leaves_singleton, List.forall_mem_singleton]

/-- A member that events are about is left there by them, unless the last of them
removes it or hands it out. -/
theorem taken_of_not_leaves {y : String} (about : ∃ e ∈ h, e.subject = (q, y))
    (gone : ∀ score, ¬ h.Leaves q ⟨y, score⟩) :
    ∃ e ∈ h, e = .removed q y ∨ ∃ score, e = .handedOut q ⟨y, score⟩ := by
  induction h using List.reverseRecOn with
  | nil =>
    obtain ⟨e, he, -⟩ := about
    exact absurd he List.not_mem_nil
  | append_singleton h e ih =>
    by_cases last : e.subject = (q, y)
    · refine ⟨e, List.mem_append_right h List.mem_cons_self, ?_⟩
      cases e with
      | enqueued queue m =>
        obtain ⟨rfl, rfl⟩ := Prod.mk.inj last
        exact absurd (leaves_concat.2 (.inl rfl)) (gone m.score)
      | removed queue member =>
        obtain ⟨rfl, rfl⟩ := Prod.mk.inj last
        exact .inl rfl
      | handedOut queue m =>
        obtain ⟨rfl, rfl⟩ := Prod.mk.inj last
        exact .inr ⟨m.score, rfl⟩
    · have earlier : ∃ e ∈ h, e.subject = (q, y) := by
        obtain ⟨e', he', same⟩ := about
        rcases List.mem_append.1 he' with he' | he'
        · exact ⟨e', he', same⟩
        · exact absurd (List.mem_singleton.1 he' ▸ same) last
      obtain ⟨e', he', taken⟩ :=
        ih earlier fun score left => gone score (leaves_concat.2 (.inr ⟨last, left⟩))
      exact ⟨e', List.mem_append_left _ he', taken⟩

/-- Every member that was handed out had been left in the queue at its score. -/
def Honest (h : History) : Prop :=
  ∀ before q m after, h = before ++ .handedOut q m :: after → Leaves before q m

theorem Honest.append (honest : h.Honest)
    (new : ∀ before q m after, es = before ++ .handedOut q m :: after → Leaves (h ++ before) q m) :
    (h ++ es).Honest := by
  intro before q m after split
  rcases List.append_eq_append_iff.1 split with ⟨rest, rfl, rfl⟩ | ⟨rest, rfl, cut⟩
  · exact new rest q m after rfl
  · cases rest with
    | nil => simpa using new [] q m after cut.symm
    | cons e rest =>
      obtain ⟨rfl, rfl⟩ := List.cons.inj cut
      exact honest before q m rest rfl

/-- Between two hand-outs of a member it was put into the queue. -/
theorem Honest.enqueued_between {before between after : History} {m m' : ScoredMember}
    (honest : (before ++ .handedOut q m :: (between ++ .handedOut q m' :: after)).Honest)
    (same : m.member = m'.member) : .enqueued q m' ∈ between := by
  have left : ((before ++ [QueueEvent.handedOut q m]) ++ between).Leaves q m' :=
    honest _ q m' after (by simp)
  rcases leaves_append.1 left with ⟨first, last, rfl, -⟩ | ⟨-, earlier⟩
  · exact List.mem_append_right first List.mem_cons_self
  · rcases leaves_concat.1 earlier with same' | ⟨other, -⟩
    · contradiction
    · exact absurd (congrArg (Prod.mk q) same) other

/-! ## What a history tells of a store -/

/-- The queues of a store hold what a history leaves in them. -/
structure Tells (h : History) (ks : Keyspace) : Prop where
  /-- Every queue is a sorted set with its indexes in step. -/
  queues : ks.Queues
  /-- Exactly the members wait that the history leaves. -/
  waits : ∀ q (m : ScoredMember), ks.Waits q m.member m.score ↔ h.Leaves q m
  /-- What was handed out had waited. -/
  honest : h.Honest

theorem tells_empty : Tells [] ∅ := by
  refine ⟨Keyspace.queues_empty, fun q m => ?_, ?_⟩
  · refine iff_of_false ?_ (not_leaves List.not_mem_nil)
    rintro ⟨set, shown, score⟩
    simp only [Keyspace.sortedSetAt?, Std.ExtTreeMap.getElem?_empty, Option.some.injEq] at shown
    subst shown
    simp [SortedSet.score?, SortedSet.empty] at score
  · intro before q m after split
    simp at split

namespace Tells

variable {ks : Keyspace}

/-- A queue lists what the history leaves in it, in order. -/
theorem members (tells : h.Tells ks) (q : String) : ∃ ms, ks.members (.queue q) = .ok ms ∧
    (ms.Pairwise fun a b => a.precedes b) ∧ ∀ m, m ∈ ms ↔ h.Leaves q m := by
  obtain ⟨set, shown, agrees⟩ := tells.queues q
  refine ⟨set.members, Keyspace.members_eq shown, agrees.sorted, fun m => ?_⟩
  rw [← tells.waits, agrees.mem_members, Keyspace.Waits, shown]
  simp

theorem enqueue (tells : h.Tells ks) (queue : String) (m : ScoredMember) :
    (h ++ [QueueEvent.enqueued queue m]).Tells (ks.editSet (.queue queue) (·.insert m)) := by
  refine ⟨tells.queues.editSet (fun _ agrees => agrees.insert m) queue, fun q y => ?_, ?_⟩
  · rw [Keyspace.waits_insert tells.queues, leaves_concat, tells.waits]
    by_cases here : q = queue ∧ y.member = m.member
    · obtain ⟨rfl, same⟩ := here
      rw [if_pos ⟨rfl, same⟩]
      constructor
      · intro score
        exact .inl (congrArg _ (by cases y; cases m; simp_all))
      · rintro (same' | ⟨other, -⟩)
        · injection same' with _ same'
          rw [same']
        · exact absurd (congrArg (Prod.mk q) same.symm) other
    · rw [if_neg here]
      constructor
      · intro left
        refine .inr ⟨fun about => here ?_, left⟩
        obtain ⟨rfl, same⟩ := Prod.mk.inj about
        exact ⟨rfl, same.symm⟩
      · rintro (same | ⟨-, left⟩)
        · injection same with same same'
          exact absurd ⟨same.symm, same' ▸ rfl⟩ here
        · exact left
  · refine tells.honest.append fun before q m' after split => ?_
    cases before with
    | nil => simp at split
    | cons _ _ => simp at split

theorem remove (tells : h.Tells ks) (queue member : String) :
    (h ++ [QueueEvent.removed queue member]).Tells
      (ks.editSet (.queue queue) (·.erase member)) := by
  refine ⟨tells.queues.editSet (fun _ agrees => agrees.erase member) queue, fun q y => ?_, ?_⟩
  · rw [Keyspace.waits_erase tells.queues, leaves_concat, tells.waits]
    simp [QueueEvent.subject, eq_comm]
  · refine tells.honest.append fun before q m' after split => ?_
    cases before with
    | nil => simp at split
    | cons _ _ => simp at split

/-- Popping the first members of a queue hands out what waited there. -/
theorem handOut (tells : h.Tells ks) (queue : String) (count : Nat) {set : SortedSet}
    (shown : ks.sortedSetAt? (.queue queue) = some set) :
    (h ++ (set.first count).map (QueueEvent.handedOut queue)).Tells
      (ks.editSet (.queue queue) (·.dropFirst count)) := by
  obtain ⟨popped, answer, waited, -, waits⟩ := Operation.waits_dequeue tells.queues queue count
  obtain rfl : set.first count = popped := by
    simpa [Keyspace.answer, shown] using answer
  have agrees : set.Agrees := by
    obtain ⟨set', shown', agrees⟩ := tells.queues queue
    obtain rfl := Option.some.inj (shown.symm.trans shown')
    exact agrees
  have about (q : String) (m : ScoredMember) :
      (∀ e ∈ (set.first count).map (QueueEvent.handedOut queue), e.subject ≠ (q, m.member)) ↔
        ¬ (q = queue ∧ m.member ∈ (set.first count).map (·.member)) := by
    rw [List.forall_mem_map, not_and, List.mem_map, not_exists]
    constructor
    · rintro others rfl x ⟨hx, same⟩
      exact others x hx (congrArg (Prod.mk q) same)
    · intro others x hx about
      obtain ⟨rfl, same⟩ := Prod.mk.inj about
      exact others rfl x ⟨hx, same⟩
  refine ⟨Operation.queues_dequeue tells.queues queue count, fun q m => ?_, ?_⟩
  · refine (waits q m.member m.score).trans ?_
    rw [leaves_append, about, tells.waits]
    constructor
    · rintro ⟨left, kept⟩
      exact .inr ⟨kept, left⟩
    · rintro (handed | ⟨kept, left⟩)
      · exact absurd handed (not_leaves (by simp))
      · exact ⟨left, kept⟩
  · refine tells.honest.append fun before q m after split => ?_
    obtain ⟨first, rest, taken, rfl, cut⟩ := List.map_eq_append_iff.1 split
    obtain ⟨m', last, rfl, same, -⟩ := List.map_eq_cons_iff.1 cut
    injection same with same same'
    subst same same'
    rw [leaves_append, ← tells.waits]
    refine .inr ⟨?_, waited m' (taken ▸ List.mem_append_right first List.mem_cons_self)⟩
    -- What was handed out before this member were other members.
    have distinct : (first ++ m' :: last).Pairwise fun a b => a.member ≠ b.member :=
      taken ▸ agrees.distinct.sublist (List.take_sublist count _)
    rw [List.forall_mem_map]
    intro x hx same
    refine (List.pairwise_append.1 distinct).2.2 x hx m' List.mem_cons_self ?_
    exact (Prod.mk.inj same).2

end Tells

end History

/-! ## Operations and commits -/

namespace Operation

/-- The operation writes a queue key only as queues are written. -/
def LeavesQueues : Operation → Prop
  | .enqueue _ => True
  | .enqueueMembers _ _ => True
  | .unqueue _ => True
  | .dequeue _ _ => True
  | op => op.Spares Key.queueNamespace

/-- What an operation did to queues, where a dequeue handed out the given members. -/
def events (handed : List ScoredMember) : Operation → History
  | .enqueue places => places.map fun p => .enqueued p.queue p.member
  | .enqueueMembers queue members => members.map (.enqueued queue)
  | .unqueue places => places.map fun p => .removed p.queue p.member.member
  | .dequeue queue _ => handed.map (.handedOut queue)
  | _ => []

/-- Steps that a history tells of one by one. -/
theorem tells_foldl {α : Type} {f : Keyspace → α → Keyspace} {event : α → QueueEvent}
    (step : ∀ {h : History} {ks : Keyspace}, h.Tells ks → ∀ x, (h ++ [event x]).Tells (f ks x))
    (xs : List α) {h : History} {ks : Keyspace} (tells : h.Tells ks) :
    (h ++ xs.map event).Tells (xs.foldl f ks) := by
  induction xs generalizing h ks with
  | nil => simpa using tells
  | cons x xs ih => simpa using ih (step tells x)

/-- The events of an operation tell of its effect. -/
theorem tells_effect {h : History} {ks : Keyspace} (tells : h.Tells ks) {op : Operation}
    {handed : List ScoredMember} (only : op.LeavesQueues)
    (popped : ∀ queue count, op = .dequeue queue count →
      ∃ set, ks.sortedSetAt? (.queue queue) = some set ∧ handed = set.first count) :
    (h ++ op.events handed).Tells (op.effect ks) := by
  have spared (op : Operation) (spares : op.Spares Key.queueNamespace) :
      (h ++ []).Tells (op.effect ks) := by
    have ops : ∀ op' ∈ [op], op'.Spares Key.queueNamespace := List.forall_mem_singleton.2 spares
    rw [List.append_nil]
    refine ⟨queues_allEffects ops tells.queues, fun q m => ?_, tells.honest⟩
    exact (waits_allEffects ops ks q m.member m.score).trans (tells.waits q m)
  cases op with
  | enqueue places => exact tells_foldl (fun tells p => tells.enqueue p.queue p.member) places tells
  | enqueueMembers queue members =>
    exact tells_foldl (fun tells m => tells.enqueue queue m) members tells
  | unqueue places =>
    exact tells_foldl (fun tells p => tells.remove p.queue p.member.member) places tells
  | dequeue queue count =>
    obtain ⟨set, shown, rfl⟩ := popped queue count rfl
    exact tells.handOut queue count shown
  | _ => exact spared _ only

end Operation

/-- What a transaction did to queues by its commit: what its operations did in order,
where a dequeue handed out what its ticket names. -/
def Commit.events (commit : Commit) (tx : Transaction) : List Operation → History
  | [] => []
  | op :: ops => op.events (commit.dequeued tx.nextTicket) ++ commit.events (tx.stage op) ops

/-- The events of a commit tell of the effects of its operations.  The induction is on
the operations that are left. -/
theorem Operation.tells_events {h : History} {ks : Keyspace} {id : Nat} {settings : Settings}
    {before later : List Operation}
    (staged : ∀ op ∈ before ++ later, op.Stageable settings)
    (fit : Keyspace.firstMismatch ks.types (allCommands (before ++ later)) = none)
    (only : ∀ op ∈ later, op.LeavesQueues) (tells : h.Tells (allEffects ks before)) :
    (h ++ Commit.events ⟨id, ks.answers (allCommands (before ++ later))⟩
      ((Transaction.empty id settings).stageAll before) later).Tells
        (allEffects ks (before ++ later)) := by
  induction later generalizing before h with
  | nil => simpa [Commit.events] using tells
  | cons op later ih =>
    obtain ⟨here, rest⟩ := List.forall_mem_cons.1 only
    have next : (h ++ op.events (Commit.dequeued
        ⟨id, ks.answers (allCommands (before ++ op :: later))⟩
        ((Transaction.empty id settings).stageAll before).nextTicket)).Tells
          (op.effect (allEffects ks before)) := by
      refine tells_effect tells here ?_
      rintro queue count rfl
      exact dequeued_eq staged fit
    have shift : before ++ op :: later = (before ++ [op]) ++ later := by simp
    have stage : (Transaction.empty id settings).stageAll (before ++ [op]) =
        ((Transaction.empty id settings).stageAll before).stage op := List.foldl_concat _ _ _ _
    rw [Commit.events, ← List.append_assoc, ← stage]
    rw [shift] at staged fit next ⊢
    refine ih staged fit rest ?_
    rw [allEffects_append]
    exact next

/-! ## Runs -/

/-- A transaction that a client stages and tries to commit. -/
structure Attempt where
  /-- The number of the transaction. -/
  id : Nat
  /-- The limits of the client. -/
  settings : Settings
  /-- What is staged. -/
  operations : List Operation

/-- A store and what happened to its queues. -/
structure Chronicle where
  /-- The store. -/
  keyspace : Keyspace
  /-- The events. -/
  history : History

namespace Chronicle

/-- A commit is executed. -/
def attempt (s : Chronicle) (a : Attempt) : Chronicle :=
  let tx := Transaction.empty a.id a.settings
  match (Client.commit (tx.stageAll a.operations)).run Connection.serve
      ⟨⟨s.keyspace, [], 0⟩, a.settings, a.id⟩ with
  | (.ok commit, c) => ⟨c.database.keyspace, s.history ++ commit.events tx a.operations⟩
  | (.error _, c) => ⟨c.database.keyspace, s.history⟩

/-- Commits are executed in order, from the empty store on. -/
def run (attempts : List Attempt) : Chronicle := attempts.foldl attempt ⟨∅, []⟩

theorem run_append (first later : List Attempt) :
    run (first ++ later) = later.foldl attempt (run first) :=
  List.foldl_append

/-- A commit adds what it did to the history. -/
theorem history_attempt (s : Chronicle) (a : Attempt) :
    ∃ new, (s.attempt a).history = s.history ++ new := by
  unfold attempt
  dsimp only
  split
  · exact ⟨_, rfl⟩
  · exact ⟨[], (List.append_nil _).symm⟩

theorem history_foldl (s : Chronicle) (attempts : List Attempt) :
    ∃ new, (attempts.foldl attempt s).history = s.history ++ new := by
  induction attempts generalizing s with
  | nil => exact ⟨[], (List.append_nil _).symm⟩
  | cons a attempts ih =>
    obtain ⟨first, here⟩ := s.history_attempt a
    obtain ⟨rest, there⟩ := ih (s.attempt a)
    exact ⟨first ++ rest, there.trans (by rw [here, List.append_assoc])⟩

/-- After a commit the history still tells what queues hold. -/
theorem tells_attempt {s : Chronicle} (tells : s.history.Tells s.keyspace) {a : Attempt}
    (only : ∀ op ∈ a.operations, op.LeavesQueues) :
    (s.attempt a).history.Tells (s.attempt a).keyspace := by
  have cases := run_commit_cases (c := ⟨⟨s.keyspace, [], 0⟩, a.settings, a.id⟩) a.id a.settings
    a.operations nofun
  unfold attempt
  dsimp only at cases ⊢
  generalize (Client.commit _).run Connection.serve _ = run at cases ⊢
  obtain ⟨result, c⟩ := run
  rcases cases with ⟨⟨e, rfl⟩, same⟩ | ⟨staged, fit, rfl, after⟩
  · dsimp only at same ⊢
    rw [same]
    exact tells
  · dsimp only at after ⊢
    rw [after]
    exact @Operation.tells_events s.history s.keyspace a.id a.settings [] a.operations
      staged fit only tells

/-- In every run the history tells what queues hold. -/
theorem tells_run {attempts : List Attempt}
    (only : ∀ a ∈ attempts, ∀ op ∈ a.operations, op.LeavesQueues) :
    (run attempts).history.Tells (run attempts).keyspace := by
  induction attempts using List.reverseRecOn with
  | nil => exact History.tells_empty
  | append_singleton attempts a ih =>
    obtain ⟨earlier, last⟩ := List.forall_mem_append.1 only
    rw [run_append]
    exact tells_attempt (ih earlier) (last a List.mem_cons_self)

end Chronicle

/-- Queues are conserved.  After every run each queue lists, by score and then by member,
exactly the members whose last committed enqueue was followed neither by a hand-out nor by a
removal, at the scores of those enqueues.  Between two hand-outs of a member it was enqueued,
and a member that is not in its queue any more was handed out or removed. -/
theorem queues_conserved (attempts : List Attempt)
    (only : ∀ a ∈ attempts, ∀ op ∈ a.operations, op.LeavesQueues) :
    let s := Chronicle.run attempts
    (∀ q, ∃ ms, s.keyspace.members (.queue q) = .ok ms ∧
      (ms.Pairwise fun a b => a.precedes b) ∧ ∀ m, m ∈ ms ↔ s.history.Leaves q m) ∧
    (∀ before between after q m m',
      s.history = before ++ .handedOut q m :: (between ++ .handedOut q m' :: after) →
        m.member = m'.member → .enqueued q m' ∈ between) ∧
    (∀ first later, attempts = first ++ later → ∃ new,
      s.history = (Chronicle.run first).history ++ new ∧
        ∀ q ms ms', (Chronicle.run first).keyspace.members (.queue q) = .ok ms →
          s.keyspace.members (.queue q) = .ok ms' → ∀ m ∈ ms, m.member ∉ ms'.map (·.member) →
            ∃ e ∈ new, e = .removed q m.member ∨ ∃ score, e = .handedOut q ⟨m.member, score⟩) := by
  intro s
  have tells : s.history.Tells s.keyspace := Chronicle.tells_run only
  refine ⟨tells.members, ?_, ?_⟩
  · intro before between after q m m' split same
    exact (split ▸ tells.honest).enqueued_between same
  · rintro first later rfl
    have tells₁ := Chronicle.tells_run (List.forall_mem_append.1 only).1
    obtain ⟨new, grown⟩ := Chronicle.history_foldl (Chronicle.run first) later
    rw [← Chronicle.run_append] at grown
    refine ⟨new, grown, fun q ms ms' listed listed' m hm gone => ?_⟩
    obtain ⟨_, same, -, left⟩ := tells₁.members q
    obtain rfl := Except.ok.inj (listed.symm.trans same)
    obtain ⟨_, same', -, left'⟩ := tells.members q
    obtain rfl := Except.ok.inj (listed'.symm.trans same')
    have nowhere (score : Score) : ¬ s.history.Leaves q ⟨m.member, score⟩ := fun there =>
      gone (List.mem_map.2 ⟨_, (left' _).2 there, rfl⟩)
    refine History.taken_of_not_leaves ?_ fun score there => ?_
    · by_contra nothing
      refine nowhere m.score (grown ▸ History.leaves_append.2 (.inr ⟨?_, (left m).1 hm⟩))
      exact fun e he about => nothing ⟨e, he, about⟩
    · exact nowhere score (grown ▸ History.leaves_append.2 (.inl there))

/-- Two members are enqueued, the first one is handed out, a dequeue fails, and in one
transaction the other one is removed and the first one comes back at another score. -/
theorem queue_after_hand_out_and_return :
    let attempts : List Attempt := [
      ⟨1, .default, [.enqueueMembers "ranked" [⟨"a", ⟨2⟩⟩, ⟨"b", ⟨1⟩⟩]]⟩,
      ⟨2, .default, [.dequeue "ranked" 1]⟩,
      ⟨3, .default, [.dequeue "ranked" 2]⟩,
      ⟨4, .default, [.deleteKey (.entry Party "p")]⟩,
      ⟨5, .default, [.unqueue [⟨"ranked", ⟨"a", ⟨0⟩⟩⟩], .enqueueMembers "ranked" [⟨"b", ⟨3⟩⟩]]⟩]
    let s := Chronicle.run attempts
    (∀ a ∈ attempts, ∀ op ∈ a.operations, op.LeavesQueues) ∧
      s.keyspace.members (.queue "ranked") = .ok [⟨"b", ⟨3⟩⟩] ∧
      ∀ m, m ∈ [(⟨"b", ⟨3⟩⟩ : ScoredMember)] ↔ History.Leaves
        [.enqueued "ranked" ⟨"a", ⟨2⟩⟩, .enqueued "ranked" ⟨"b", ⟨1⟩⟩,
          .handedOut "ranked" ⟨"b", ⟨1⟩⟩, .removed "ranked" "a",
          .enqueued "ranked" ⟨"b", ⟨3⟩⟩] "ranked" m := by
  intro attempts s
  have only : ∀ a ∈ attempts, ∀ op ∈ a.operations, op.LeavesQueues := by
    have spares : (Operation.deleteKey (.entry Party "p")).LeavesQueues := by
      intro id mem
      exact Key.compose_ne (by decide) id "p" (List.mem_singleton.1 mem)
    simp only [attempts, List.forall_mem_cons, List.not_mem_nil, false_implies, implies_true,
      and_true]
    exact ⟨trivial, trivial, trivial, spares, trivial, trivial⟩
  have listed : s.keyspace.members (.queue "ranked") = .ok [⟨"b", ⟨3⟩⟩] := by rfl
  refine ⟨only, listed, ?_⟩
  obtain ⟨ms, same, -, left⟩ := (queues_conserved attempts only).1 "ranked"
  obtain rfl := Except.ok.inj (listed.symm.trans same)
  exact left

end Matchmaking
