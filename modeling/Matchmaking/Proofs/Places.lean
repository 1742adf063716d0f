import Matchmaking.Proofs.Queues
import Matchmaking.Proofs.Safety

/-!
# Places of parties

A party that waits for a match stands in a queue, or a call took it off the queue
and has not returned, or a client was handed it (`Ledger.At`).  A call *handles* the
parties that it took or whose assignment it works on.

A commit that leaves the queues alone, of a call that does not assign, leaves all
places alone.
-/

namespace Matchmaking

/-! ## Places -/

/-- Where a party is that waits for a match. -/
inductive Place where
  /-- It stands in a queue. -/
  | waiting
  /-- A call took it off a queue and has not returned. -/
  | taken (call : Nat)
  /-- A client was handed it and has not assigned it. -/
  | held (client : Nat)

namespace Ledger

/-- A call took a party off a queue and has not returned. -/
def Takes (L : Ledger) (i : Nat) (p : String) : Prop := ∃ c, L.calls i = some c ∧ p ∈ c.taken

/-- A call works on an assignment of a party. -/
def Treats (L : Ledger) (i : Nat) (p : String) : Prop :=
  ∃ c a, L.calls i = some c ∧ c.current? = some a ∧ a.party = p

/-- A call takes or treats a party. -/
def Handles (L : Ledger) (i : Nat) (p : String) : Prop := L.Takes i p ∨ L.Treats i p

/-- A call that starts has taken nothing. -/
theorem not_takes_start (L : Ledger) {i client : Nat} {activity : Activity} (p : String) :
    ¬ (L.start i client activity).Takes i p := by
  rintro ⟨c, record, mem⟩
  have fresh : (L.start i client activity).calls i = some ⟨client, activity, 0, false, []⟩ :=
    Function.update_self i _ L.calls
  obtain rfl := Option.some.inj (fresh.symm.trans record)
  exact absurd mem List.not_mem_nil

/-- A call that returns has taken nothing any more. -/
theorem takes_finish (L : Ledger) {i : Nat}
    {result : Except GatewayError (List (Entry PartyRequest))} (j : Nat) (p : String) :
    (L.finish i result).Takes j p ↔ j ≠ i ∧ L.Takes j p := by
  unfold Takes
  by_cases same : j = i
  · subst same
    have self : (L.finish j result).calls j = (L.calls j).map .finish :=
      L.calls_update_self j .finish
    rw [self]
    simp [Progress.finish]
  · have other : (L.finish i result).calls j = L.calls j := L.calls_update_of_ne _ same
    rw [other]
    simp [same]

/-- A party is in a place. -/
def At (L : Ledger) (p : String) : Place → Prop
  | .waiting => ∃ queue score, L.keyspace.Waits queue p score
  | .taken i => L.Takes i p
  | .held client => (client, p) ∈ L.held

theorem handles_congr {L L' : Ledger} {i : Nat} (h : L'.calls i = L.calls i) (p : String) :
    L'.Handles i p ↔ L.Handles i p := by
  unfold Handles Takes Treats
  rw [h]

end Ledger

/-! ## Commits -/

namespace Operation

/-- Only a dequeue is answered with members. -/
theorem answer_of_command {op : Operation} (h : ∀ queue count, op ≠ .dequeue queue count)
    {command : Command} (mem : command ∈ op.commands) (ks : Keyspace) :
    ks.answer command = .done := by
  cases op with
  | create _ | update _ =>
    obtain ⟨_, _, _, rfl⟩ := mem_writeCommands mem
    rfl
  | delete _ | enqueue _ | enqueueMembers _ _ | unqueue _ =>
    obtain ⟨_, _, rfl⟩ := List.mem_map.1 mem
    rfl
  | dequeue queue count => exact absurd rfl (h queue count)
  | updateHash hash fields =>
    obtain ⟨field, _, rfl⟩ := List.mem_map.1 mem
    unfold Transaction.fieldCommand
    split <;> rfl
  | deleteKey _ | createHash _ _ | deleteField _ _ =>
    rw [List.mem_singleton.1 mem]
    rfl
  | _ => exact absurd mem List.not_mem_nil

/-- An operation that leaves queues alone adds to none. -/
theorem added?_of_spares {op : Operation} (h : op.Spares Key.queueNamespace) {command : Command}
    (mem : command ∈ op.commands) : Progress.added? command = none := by
  cases op with
  | create _ | update _ =>
    obtain ⟨_, _, _, rfl⟩ := mem_writeCommands mem
    rfl
  | enqueue places =>
    obtain ⟨p, hp, rfl⟩ := List.mem_map.1 mem
    exact absurd (List.mem_map_of_mem hp) (h p.queue)
  | enqueueMembers queue members => exact absurd (List.mem_singleton.2 rfl) (h queue)
  | delete _ | unqueue _ =>
    obtain ⟨_, _, rfl⟩ := List.mem_map.1 mem
    rfl
  | updateHash hash fields =>
    obtain ⟨field, _, rfl⟩ := List.mem_map.1 mem
    unfold Transaction.fieldCommand
    split <;> rfl
  | deleteKey _ | dequeue _ _ | createHash _ _ | deleteField _ _ =>
    rw [List.mem_singleton.1 mem]
    rfl
  | _ => exact absurd mem List.not_mem_nil

/-- The members that operations put into queues. -/
def added (ops : List Operation) : List String := (allCommands ops).filterMap Progress.added?

/-- The members that operations pop. -/
def received (ks : Keyspace) (ops : List Operation) : List String :=
  (ks.answers (allCommands ops)).flatMap Progress.received

theorem added_of_spares {ops : List Operation} (h : ∀ op ∈ ops, op.Spares Key.queueNamespace) :
    added ops = [] := by
  refine List.filterMap_eq_nil_iff.2 fun command mem => ?_
  obtain ⟨op, hop, mem⟩ := List.mem_flatMap.1 mem
  exact added?_of_spares (h op hop) mem

theorem received_of_no_dequeue {ops : List Operation}
    (h : ∀ queue count, .dequeue queue count ∉ ops) (ks : Keyspace) : received ks ops = [] := by
  have none {commands : List Command}
      (silent : ∀ c ∈ commands, ∀ ks : Keyspace, ks.answer c = .done) :
      (ks.answers commands).flatMap Progress.received = [] := by
    induction commands generalizing ks with
    | nil => rfl
    | cons c commands ih =>
      obtain ⟨first, rest⟩ := List.forall_mem_cons.1 silent
      rw [Keyspace.answers, List.flatMap_cons, first ks, ih (ks.edit c) rest]
      rfl
  refine none fun c mem => ?_
  obtain ⟨op, hop, mem⟩ := List.mem_flatMap.1 mem
  exact answer_of_command (fun queue count same => h queue count (same ▸ hop)) mem

theorem no_dequeue_of_spares {ops : List Operation}
    (h : ∀ op ∈ ops, op.Spares Key.queueNamespace) (queue : String) (count : Nat) :
    .dequeue queue count ∉ ops :=
  fun mem => h _ mem queue (List.mem_singleton.2 rfl)

end Operation

namespace Safe

variable {L : Ledger} {i j : Nat} {ops : List Operation} {p : String}

theorem calls_committed (other : j ≠ i) : (committed L i ops).calls j = L.calls j :=
  L.calls_update_of_ne _ other

theorem takes_committed_of_ne (other : j ≠ i) : (committed L i ops).Takes j p ↔ L.Takes j p := by
  rw [Ledger.Takes, calls_committed other, Ledger.Takes]

theorem takes_committed : (committed L i ops).Takes i p ↔ ∃ c, L.calls i = some c ∧
    (p ∈ c.taken ∨ p ∈ Operation.received L.keyspace ops) ∧ p ∉ Operation.added ops := by
  have record : (committed L i ops).calls i = _ := L.calls_update_self i _
  rw [Ledger.Takes, record]
  simp only [Option.map_eq_some_iff]
  constructor
  · rintro ⟨_, ⟨c, record, rfl⟩, mem⟩
    obtain ⟨mem, kept⟩ := List.mem_filter.1 mem
    exact ⟨c, record, List.mem_append.1 mem, of_decide_eq_true kept⟩
  · rintro ⟨c, record, mem, kept⟩
    exact ⟨_, ⟨c, record, rfl⟩, List.mem_filter.2 ⟨List.mem_append.2 mem, decide_eq_true kept⟩⟩

/-- A commit that leaves queues alone leaves alone who took what. -/
theorem takes_committed_of_spares (h : ∀ op ∈ ops, op.Spares Key.queueNamespace) :
    (committed L i ops).Takes j p ↔ L.Takes j p := by
  by_cases same : j = i
  · subst same
    rw [takes_committed, Operation.added_of_spares h,
      Operation.received_of_no_dequeue (Operation.no_dequeue_of_spares h)]
    simp [Ledger.Takes]
  · exact takes_committed_of_ne same

/-- A call that has committed works on no assignment. -/
theorem not_treats_committed : ¬ (committed L i ops).Treats i p := by
  rintro ⟨c, a, record, current, -⟩
  have made := (L.calls_update_self i _).symm.trans record
  obtain ⟨c, -, rfl⟩ := Option.map_eq_some_iff.1 made
  contradiction

theorem Plain.held_committed (plain : Plain i L) : (Safe.committed L i ops).held = L.held := by
  obtain ⟨c, record, -⟩ := id plain
  have none : L.released? i = none := by
    rw [Ledger.released?, record, Option.bind_some, plain.next?_eq record]
    rfl
  refine List.filter_eq_self.2 fun pair _ => ?_
  rw [none]
  rfl

/-- A commit that leaves queues alone, of a call that does not assign, leaves alone where
parties are. -/
theorem Plain.at_committed (plain : Plain i L) (h : ∀ op ∈ ops, op.Spares Key.queueNamespace)
    (place : Place) : (Safe.committed L i ops).At p place ↔ L.At p place := by
  cases place with
  | waiting =>
    exact exists_congr fun queue => exists_congr fun score =>
      Operation.waits_allEffects h L.keyspace queue p score
  | taken j => exact takes_committed_of_spares h
  | held client =>
    unfold Ledger.At
    rw [plain.held_committed]

end Safe

end Matchmaking
