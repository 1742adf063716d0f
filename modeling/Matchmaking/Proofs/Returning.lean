import Matchmaking.Proofs.Queues
import Matchmaking.Proofs.Safety
import Matchmaking.Proofs.WholeScores

/-!
# Popped parties go back into their queue

A pop that cannot set the players of its parties to matching puts the parties back
with one more commit.  Here the store may turn down any batch, by failing or by
saying that conditions did not hold (`Connection.Withholding`), and no other client
writes.

Whatever the store turns down, a procedure that sends no command for a key leaves the
key alone (`Procedure.Spares`).  So when a pop fails, its queue is as before, unless
the batch that was to put the parties back was turned down itself.  That batch is the
last one of the call, and the caller gets the same error as if it had been executed.
-/

namespace Matchmaking

/-! ## Connections whose faults withhold batches -/

namespace Connection

/-- Every fault to come withholds its batch. -/
def Withholding (c : Connection) : Prop :=
  ∀ fault, some fault ∈ c.database.faults → fault.Withholds

/-- Between two states of a connection, so many batches were sent and met the next
faults. -/
structure Sent (n : Nat) (c c' : Connection) : Prop where
  received : c'.database.received = c.database.received + n
  faults : c'.database.faults = c.database.faults.drop n

variable {c c' c'' : Connection} {n m : Nat}

theorem Sent.trans (h : Sent n c c') (h' : Sent m c' c'') : Sent (n + m) c c'' := by
  constructor
  · rw [h'.received, h.received, Nat.add_assoc]
  · rw [h'.faults, h.faults, List.drop_drop]

theorem Sent.withholding (h : Sent n c c') (withholding : c.Withholding) : c'.Withholding := by
  intro fault mem
  rw [h.faults] at mem
  exact withholding fault (List.mem_of_mem_drop mem)

/-- The fault that comes next after a number of batches. -/
theorem Sent.head? (h : Sent n c c') : c'.database.faults.head? = c.database.faults[n]? := by
  rw [h.faults, List.head?_drop]

theorem Withholding.head? (h : c.Withholding) {fault : Fault}
    (next : c.database.faults.head?.join = some fault) : fault.Withholds :=
  h fault (List.mem_of_mem_head? (Option.join_eq_some_iff.1 next))

theorem sent_serve (r : Request) (c : Connection) : ∃ n, Sent n c (serve r c).2 := by
  cases r with
  | execute batch => exact ⟨1, rfl, List.drop_one.symm⟩
  | _ => exact ⟨0, rfl, rfl⟩

end Connection

namespace Procedure

variable {ε δ α β : Type}

/-- A run sends a number of batches. -/
theorem sent (p : Procedure ε α) (c : Connection) :
    ∃ n, Connection.Sent n c (p.run Connection.serve c).2 := by
  induction p generalizing c with
  | done result => exact ⟨0, rfl, rfl⟩
  | ask r next ih =>
    obtain ⟨n, first⟩ := Connection.sent_serve r c
    obtain ⟨m, rest⟩ := ih (Connection.serve r c).1 (Connection.serve r c).2
    exact ⟨n + m, first.trans rest⟩

section

variable {σ : Type} {serve : (r : Request) → σ → r.Answer × σ} {p : Procedure ε α}
  {f : α → Procedure ε β} {s s' : σ}

theorem run_bind_ok {a : α} (h : p.run serve s = (.ok a, s')) :
    (p >>= f).run serve s = (f a).run serve s' := by
  rw [run_bind, h]

theorem run_bind_error {e : ε} (h : p.run serve s = (.error e, s')) :
    (p >>= f).run serve s = (.error e, s') := by
  rw [run_bind, h]

theorem run_handle_ok {f : ε → Procedure ε α} {a : α} (h : p.run serve s = (.ok a, s')) :
    (p.handle f).run serve s = (.ok a, s') := by
  rw [run_handle, h]

theorem run_handle_error {f : ε → Procedure ε α} {e : ε} (h : p.run serve s = (.error e, s')) :
    (p.handle f).run serve s = (f e).run serve s' := by
  rw [run_handle, h]

end

/-- Where faults withhold batches, the procedure leaves a key alone. -/
def Spares (key : Key) (p : Procedure ε α) : Prop :=
  ∀ c : Connection, c.Withholding →
    (p.run Connection.serve c).2.database.keyspace[key]? = c.database.keyspace[key]?

namespace Spares

variable {key : Key} {p : Procedure ε α}

theorem done (result : Except ε α) : (Procedure.done result).Spares key := fun _ _ => rfl

theorem bind (h : p.Spares key) {f : α → Procedure ε β} (rest : ∀ a, (f a).Spares key) :
    (p >>= f).Spares key := by
  intro c withholding
  obtain ⟨n, sent⟩ := p.sent c
  have first := h c withholding
  cases run : p.run Connection.serve c with
  | mk result c' =>
    rw [run] at first sent
    cases result with
    | ok a =>
      rw [run_bind_ok run]
      exact (rest a c' (sent.withholding withholding)).trans first
    | error e =>
      rw [run_bind_error run]
      exact first

theorem mapError (h : p.Spares key) (f : ε → δ) : (p.mapError f).Spares key := by
  intro c withholding
  rw [run_mapError]
  exact h c withholding

theorem attempt (h : p.Spares key) : (p.attempt : Procedure δ (Except ε α)).Spares key := by
  intro c withholding
  rw [run_attempt]
  exact h c withholding

end Spares

end Procedure

/-! ## Reads and transactions -/

/-- A read finds what is stored. -/
theorem Client.run_get (α : Type) [Record α] (id : String) (c : Connection) :
    (Client.get α id).run Connection.serve c = (c.database.keyspace.get α id, c) := by
  have read : (Client.getString (.entry α id)).run Connection.serve c =
      (c.database.keyspace.string (.entry α id), c) := rfl
  rw [Keyspace.get, Client.get, Procedure.run_bind, read]
  cases c.database.keyspace.string (.entry α id) <;> rfl

/-- A transaction opens and commits. -/
theorem run_transact (c : Connection) (ops : List Operation) :
    (Client.transact ops).run Connection.serve c =
      (Client.commit ((Transaction.empty (c.opened + 1) c.settings).stageAll ops)).run
        Connection.serve { c with opened := c.opened + 1 } := rfl

/-! ## What a pop does apart from its queue -/

namespace Procedure.Spares

variable {key : Key} {queue : String}

theorem get (α : Type) [Record α] (id : String) : (Client.get α id).Spares key :=
  bind (p := Client.getString (.entry α id)) (fun _ _ => rfl) fun _ => done _

theorem getStored (α : Type) [Record α] (ids : List String) :
    (Call.getStored α ids).Spares key := by
  induction ids with
  | nil => exact done _
  | cons id ids ih => exact ((get α id).mapError _).bind fun _ => ih.bind fun _ => done _

/-- Operations that do not write queues leave queues alone. -/
theorem transact {ops : List Operation} (spares : ∀ op ∈ ops, op.Spares Key.queueNamespace) :
    (Client.transact ops).Spares (.queue queue) := by
  intro c withholding
  rw [run_transact]
  rcases run_commit_cases (c := { c with opened := c.opened + 1 }) (c.opened + 1) c.settings ops
    (fun _ => withholding.head?) with ⟨-, same⟩ | ⟨-, -, -, left⟩
  · rw [same]
  · rw [left]
    exact Operation.getElem?_allEffects spares _ queue

theorem tryMatching (requests : List (Entry PartyRequest)) :
    (Gateway.tryMatching requests).Spares (.queue queue) := by
  refine bind ?_ fun players => (transact ?_).attempt
  · rw [Gateway.playerRequests_eq]
    exact getStored PlayerRequest _
  · intro op mem
    obtain rfl := List.mem_singleton.1 mem
    exact (Operation.draftsOf_map (fun e : Entry PlayerRequest =>
      e.modify (·.withState .matching)) players).spares_update

theorem endMatching (result : Except StoreError Commit) :
    (Gateway.endMatching result).Spares key := by
  cases result <;> exact done _

theorem setMatching (requests : List (Entry PartyRequest)) (retries : Nat) :
    (Gateway.setMatching requests retries).Spares (.queue queue) := by
  induction retries with
  | zero => exact (tryMatching requests).bind endMatching
  | succ retries ih =>
    refine (tryMatching requests).bind fun result => ?_
    cases result with
    | ok commit => exact done _
    | error e =>
      dsimp only
      split
      · exact ih
      · exact endMatching _

theorem takeOver (popped : List ScoredMember) :
    (Gateway.takeOver popped).Spares (.queue queue) :=
  (getStored PartyRequest _).bind fun requests =>
    (setMatching requests _).bind fun _ => done _

end Procedure.Spares

/-! ## What a pop does to its queue -/

namespace Gateway

variable {c : Connection} {queue : String} {set : SortedSet}

/-- Members that are put back are in their queue, unless the batch meets a fault. -/
theorem run_putBack (withholding : c.Withholding)
    (shown : c.database.keyspace.sortedSetAt? (.queue queue) = some set) (agrees : set.Agrees)
    (popped : List ScoredMember) :
    let after := ((putBack queue popped).run Connection.serve c).2.database
    after.keyspace.sortedSetAt? (.queue queue) = some (popped.foldl SortedSet.insert set) ∨
      (∃ fault, c.database.faults.head? = some (some fault)) ∧
        after.received = c.database.received + 1 ∧
        after.keyspace.sortedSetAt? (.queue queue) = some set := by
  intro after
  let ops : List Operation := [.enqueueMembers queue popped]
  let c' : Connection := { c with opened := c.opened + 1 }
  let run := (Client.commit ((Transaction.empty (c.opened + 1) c.settings).stageAll ops)).run
    Connection.serve c'
  have same : after = run.2.database := by
    simp only [after, putBack, Procedure.run_bind, Procedure.run_attempt, run_transact]
    rfl
  have staged : ∀ op ∈ ops, op.Stageable c.settings := by
    intro op mem
    obtain rfl := List.mem_singleton.1 mem
    trivial
  rw [same]
  by_cases nobody : popped = []
  · subst nobody
    have nothing := Transaction.submission_stageAll (c.opened + 1) staged
    rw [if_pos ⟨rfl, rfl⟩] at nothing
    simp only [run, Client.commit, nothing, Procedure.run]
    exact .inl shown
  cases next : c.database.faults.head?.join with
  | none =>
    have fit := Operation.firstMismatch_enqueueMembers shown popped
    have holds : ∀ r ∈ Operation.allRequirements ops, r.Holds c.database.keyspace := by
      intro r mem
      contradiction
    obtain ⟨-, left⟩ := run_commit (c := c') (c.opened + 1) next staged
    rw [Keyspace.execute_committed staged holds fit] at left
    rw [left]
    exact .inl (Operation.sortedSetAt?_enqueueMembers shown agrees popped)
  | some fault =>
    have something : ¬ (Operation.allCommands ops = [] ∧ Operation.allDemands ops = []) := by
      rintro ⟨none, -⟩
      exact nobody (List.map_eq_nil_iff.1
        ((Operation.allCommands_enqueueMembers queue popped).symm.trans none))
    obtain ⟨-, left, received⟩ := run_commit_withheld (c := c') (c.opened + 1) next
      (withholding.head? next) staged something
    refine .inr ⟨⟨fault, Option.join_eq_some_iff.1 next⟩, received, ?_⟩
    rw [left]
    exact shown

/-- A pop of at least one party. -/
theorem pop_eq {count : Nat} (positive : count ≠ 0) :
    pop queue count = (do
      let tx ← Call.read Client.begin
      let commit ← Call.commit "pop_waiting_parties" .alreadyExists
        (Client.commit (tx.stageAll [.dequeue queue count]))
      let popped := commit.dequeued tx.nextTicket
      (takeOver popped).handle fun e => do
        putBack queue popped
        throw e) := by
  rw [pop, if_neg positive]
  rfl

section

variable {count : Nat} {c' c'' : Connection} {commit : Commit}

theorem run_begin (c : Connection) : (Call.read Client.begin).run Connection.serve c =
    (.ok (.empty (c.opened + 1) c.settings), { c with opened := c.opened + 1 }) := rfl

theorem run_pop_refused (positive : count ≠ 0) {e : StoreError}
    (dequeue : (Client.transact [.dequeue queue count]).run Connection.serve c = (.error e, c')) :
    (pop queue count).run Connection.serve c =
      (.error (.ofCommit "pop_waiting_parties" .alreadyExists e), c') := by
  rw [pop_eq positive, Procedure.run_bind_ok (run_begin c)]
  refine Procedure.run_bind_error ?_
  rw [Call.commit, Procedure.run_mapError, ← run_transact, dequeue]
  rfl

/-- Once its dequeue is committed, a pop takes the parties over or puts them back. -/
theorem run_pop_accepted (positive : count ≠ 0)
    (dequeue : (Client.transact [.dequeue queue count]).run Connection.serve c = (.ok commit, c')) :
    let popped := commit.dequeued ⟨c.opened + 1, 0⟩
    (pop queue count).run Connection.serve c =
      ((takeOver popped).handle fun e => do
        putBack queue popped
        throw e).run Connection.serve c' := by
  rw [pop_eq positive, Procedure.run_bind_ok (run_begin c)]
  refine Procedure.run_bind_ok ?_
  rw [Call.commit, Procedure.run_mapError, ← run_transact, dequeue]
  rfl

/-- A pop that cannot take the parties over fails after putting them back. -/
theorem run_pop_failed (positive : count ≠ 0) {e : GatewayError}
    (dequeue : (Client.transact [.dequeue queue count]).run Connection.serve c = (.ok commit, c'))
    {popped : List ScoredMember} (handed : commit.dequeued ⟨c.opened + 1, 0⟩ = popped)
    (failed : (takeOver popped).run Connection.serve c' = (.error e, c'')) :
    (pop queue count).run Connection.serve c =
      (.error e, ((putBack queue popped).run Connection.serve c'').2) := by
  subst handed
  refine (run_pop_accepted positive dequeue).trans ((Procedure.run_handle_error failed).trans ?_)
  rw [Procedure.run_bind, putBack, Procedure.run_bind, Procedure.run_attempt]
  rfl

end

/-- The dequeue of a pop either fails and changes nothing, or hands out the first members
of the queue. -/
theorem run_dequeue (withholding : c.Withholding)
    (shown : c.database.keyspace.sortedSetAt? (.queue queue) = some set) (agrees : set.Agrees)
    (count : Nat) {dequeued : Except StoreError Commit} {c' : Connection}
    (dequeue : (Client.transact [.dequeue queue count]).run Connection.serve c = (dequeued, c')) :
    ((∃ e, dequeued = .error e) ∧
      c'.database.keyspace.sortedSetAt? (.queue queue) = some set) ∨
    ∃ commit, dequeued = .ok commit ∧ commit.dequeued ⟨c.opened + 1, 0⟩ = set.first count ∧
      c'.database.keyspace.sortedSetAt? (.queue queue) = some (set.dropFirst count) := by
  have cases := run_commit_cases (c := { c with opened := c.opened + 1 }) (c.opened + 1) c.settings
    [.dequeue queue count] (fun _ => withholding.head?)
  rw [← run_transact, dequeue] at cases
  rcases cases with ⟨refused, same⟩ | ⟨staged, fit, accepted, effect⟩
  · refine .inl ⟨refused, (Keyspace.sortedSetAt?_congr ?_).trans shown⟩
    exact congrArg (·[Key.queue queue]?) same
  · refine .inr ⟨_, accepted, ?_, ?_⟩
    · have handed : ∃ set', c.database.keyspace.sortedSetAt? (.queue queue) = some set' ∧
          Commit.dequeued ⟨c.opened + 1, c.database.keyspace.answers
            (Operation.allCommands [.dequeue queue count])⟩ ⟨c.opened + 1, 0⟩ =
              set'.first count :=
        @Operation.dequeued_eq c.database.keyspace (c.opened + 1) c.settings [] [] queue count
          staged fit
      obtain ⟨set', shown', popped⟩ := handed
      obtain rfl := Option.some.inj (shown.symm.trans shown')
      exact popped
    · have edited : c'.database.keyspace =
        c.database.keyspace.editSet (.queue queue) (·.dropFirst count) := effect
      rw [edited]
      exact Keyspace.sortedSetAt?_editSet shown (agrees.dropFirst count)

/-- A pop that fails leaves its queue as it was, unless the last batch of the call met a
fault.  Then the queue may lack the members that were popped. -/
theorem pop_puts_back (withholding : c.Withholding)
    (shown : c.database.keyspace.sortedSetAt? (.queue queue) = some set) (agrees : set.Agrees)
    (count : Nat) {e : GatewayError}
    (failed : ((pop queue count).run Connection.serve c).1 = .error e) :
    let after := ((pop queue count).run Connection.serve c).2.database
    after.keyspace.sortedSetAt? (.queue queue) = some set ∨
      (∃ n fault, after.received = c.database.received + (n + 1) ∧
        c.database.faults[n]? = some (some fault)) ∧
      after.keyspace.sortedSetAt? (.queue queue) = some (set.dropFirst count) := by
  by_cases positive : count = 0
  · rw [pop, if_pos positive]
    exact .inl shown
  obtain ⟨n, sent⟩ := (Client.transact [.dequeue queue count]).sent c
  cases dequeue : (Client.transact [.dequeue queue count]).run Connection.serve c with
  | mk dequeued c₁ =>
  rw [dequeue] at sent
  have withholding₁ : c₁.Withholding := sent.withholding withholding
  rcases run_dequeue withholding shown agrees count dequeue with
    ⟨⟨e', rfl⟩, same⟩ | ⟨commit, rfl, popped, left⟩
  · rw [run_pop_refused positive dequeue]
    exact .inl same
  -- From here to the batch that puts the members back nothing writes the queue.
  obtain ⟨m, sent₁⟩ := (takeOver (set.first count)).sent c₁
  have spares : (takeOver (set.first count)).Spares (.queue queue) := .takeOver _
  have spared := spares c₁ withholding₁
  cases took : (takeOver (set.first count)).run Connection.serve c₁ with
  | mk result c₂ =>
  rw [took] at sent₁ spared
  cases result with
  | ok requests =>
    rw [run_pop_accepted positive dequeue, popped, Procedure.run_handle_ok took] at failed
    contradiction
  | error e' =>
    rw [run_pop_failed positive dequeue popped took]
    have shown₂ := (Keyspace.sortedSetAt?_congr spared).trans left
    rcases run_putBack (sent₁.withholding withholding₁) shown₂ (agrees.dropFirst count)
      (set.first count) with back | ⟨⟨fault, next⟩, received, lost⟩
    · rw [agrees.insertAll_dropFirst] at back
      exact .inl back
    · have whole := sent.trans sent₁
      refine .inr ⟨⟨n + m, fault, ?_, ?_⟩, lost⟩
      · rw [← Nat.add_assoc]
        exact received.trans (congrArg (· + 1) whole.received)
      · exact whole.head?.symm.trans next

/-! ## A party that is not put back -/

section

variable {x : String} {player : Entry PlayerRequest} {request : Entry PartyRequest}
  {rest : List (Option Fault)}

/-- The answer of a store that says that a single entry to update has changed. -/
def changed : Option Fault := some (.reject [true, false])

/-- An update of an entry that is said to have changed is aborted. -/
theorem run_update_changed {d : Draft} {text : String} (written : d.text = .ok text)
    (next : c.database.faults = changed :: rest) :
    (Client.transact [.update [d]]).run Connection.serve c =
      (.error (.rejected .aborted),
        ⟨⟨c.database.keyspace, rest, c.database.received + 1⟩, c.settings, c.opened + 1⟩) := by
  obtain ⟨⟨ks, faults, received⟩, settings, opened⟩ := c
  obtain ⟨key, _, previous⟩ := d
  cases written
  cases next
  rfl

theorem run_getStored_singleton {α : Type} [Record α] {id : String} {e : Entry α}
    (stored : c.database.keyspace.get α id = .ok (some e)) :
    (Call.getStored α [id]).run Connection.serve c = (.ok [e], c) := by
  simp only [Call.getStored, Call.read, Procedure.run_bind, Procedure.run_mapError,
    Client.run_get, stored]
  rfl

theorem run_tryMatching_changed (alone : request.record.party.players = [x])
    (stored : c.database.keyspace.get PlayerRequest x = .ok (some player))
    (next : c.database.faults = changed :: rest) :
    (tryMatching [request]).run Connection.serve c =
      (.ok (.error (.rejected .aborted)),
        ⟨⟨c.database.keyspace, rest, c.database.received + 1⟩, c.settings, c.opened + 1⟩) := by
  have players : (playerRequests [request]).run Connection.serve c = (.ok [player], c) := by
    rw [playerRequests_eq, List.flatMap_singleton, alone]
    exact run_getStored_singleton stored
  obtain ⟨text, written, -⟩ := Entry.deserialize_serialize
    (e := player.modify (·.withState .matching)) (PlayerRequest.readable _)
  rw [tryMatching, Procedure.run_bind_ok players, Procedure.run_attempt, List.map_singleton,
    run_update_changed written next]

/-- A player whose request is said to have changed every time is not set to matching. -/
theorem run_setMatching_changed (alone : request.record.party.players = [x]) {ks : Keyspace}
    (stored : ks.get PlayerRequest x = .ok (some player)) (retries received opened : Nat)
    (settings : Settings) :
    (setMatching [request] retries).run Connection.serve
        ⟨⟨ks, List.replicate (retries + 1) changed ++ rest, received⟩, settings, opened⟩ =
      (.error (.ofCommit "pop_waiting_parties" .alreadyExists (.rejected .aborted)),
        ⟨⟨ks, rest, received + (retries + 1)⟩, settings, opened + (retries + 1)⟩) := by
  induction retries generalizing received opened with
  | zero =>
    rw [setMatching, Procedure.run_bind_ok (run_tryMatching_changed alone stored rfl)]
    rfl
  | succ retries ih =>
    rw [setMatching, Procedure.run_bind_ok (run_tryMatching_changed alone stored rfl)]
    refine (ih (received + 1) (opened + 1)).trans ?_
    rw [Nat.add_right_comm received 1, Nat.add_right_comm opened 1]
    rfl

end

/-- Ann's party. -/
def annsParty : Party := ⟨"p", "ann", "t", 1, 2, (∅ : TextMap).insert "ann" "t", .matchmaking⟩

/-- Ann's party as it joined. -/
def annsRequest : PartyRequest := .ofParty annsParty "duel" ∅ (.ofNat 0)

/-- Ann's own request. -/
def annsOwnRequest : PlayerRequest := .create "ann" "t" "duel" ∅

/-- A queue in which Ann's party waits. -/
def annsQueue : SortedSet := .insert .empty ⟨"p", .ofNat 0⟩

/-- A store with what Ann's join has written. -/
def annsStore : Keyspace :=
  (((∅ : Keyspace).insert (.entry PartyRequest "p") (.string annsRequest.toJson.print)).insert
    (.entry PlayerRequest "ann") (.string annsOwnRequest.toJson.print)).insert
    (.queue "duel") (.sortedSet annsQueue)

theorem sortedSetAt?_annsStore : annsStore.sortedSetAt? (.queue "duel") = some annsQueue := by
  simp [annsStore, Keyspace.sortedSetAt?]

/-- A client of the store.  The first batch executes, and Ann's request is said to have
changed every time. -/
def contested (later : List (Option Fault)) : Connection :=
  ⟨⟨annsStore, none :: (List.replicate matchingAttempts changed ++ later), 0⟩, .default, 0⟩

theorem withholding_contested {later : List (Option Fault)}
    (withholds : ∀ fault, some fault ∈ later → fault.Withholds) :
    (contested later).Withholding := by
  intro fault mem
  rcases List.mem_cons.1 mem with none | mem
  · contradiction
  rcases List.mem_append.1 mem with mem | mem
  · obtain rfl := Option.some.inj (List.eq_of_mem_replicate mem)
    trivial
  · exact withholds fault mem

/-- What the pop leaves of the store. -/
def poppedStore : Keyspace := annsStore.editSet (.queue "duel") (·.dropFirst 1)

theorem sortedSetAt?_poppedStore : poppedStore.sortedSetAt? (.queue "duel") = some .empty :=
  Keyspace.sortedSetAt?_editSet sortedSetAt?_annsStore
    ((SortedSet.agrees_empty.insert ⟨"p", .ofNat 0⟩).dropFirst 1)

theorem get_poppedStore {α : Type} [Record α] {id : String} {record : α} {json : Json}
    (stored : annsStore[Key.entry α id]? = some (.string json.print))
    (decoded : Record.decode json = some record)
    (apart : Key.queue "duel" ≠ Key.entry α id) :
    poppedStore.get α id = .ok (some ⟨record, some json.print⟩) := by
  refine Keyspace.get_of_text ?_ (Entry.deserialize_print decoded)
  simp [poppedStore, apart, stored]

theorem run_dequeue_contested (later : List (Option Fault)) :
    (Client.transact [.dequeue "duel" 1]).run Connection.serve (contested later) =
      (.ok ⟨1, [.popped [⟨"p", .ofNat 0⟩]]⟩,
        ⟨⟨poppedStore, List.replicate matchingAttempts changed ++ later, 1⟩, .default, 1⟩) := rfl

theorem get_annsRequest :
    poppedStore.get PartyRequest "p" = .ok (some ⟨annsRequest, some annsRequest.toJson.print⟩) :=
  get_poppedStore rfl (PartyRequest.ofJson?_toJson (Score.readsBack_ofNat (by decide)))
    (Key.compose_ne (by decide) _ _)

theorem get_annsOwnRequest :
    poppedStore.get PlayerRequest "ann" =
      .ok (some ⟨annsOwnRequest, some annsOwnRequest.toJson.print⟩) :=
  get_poppedStore rfl (PlayerRequest.ofJson?_toJson _) (Key.compose_ne (by decide) _ _)

/-- Ann is not set to matching. -/
theorem run_takeOver_contested (later : List (Option Fault)) :
    (takeOver [⟨"p", .ofNat 0⟩]).run Connection.serve
      ⟨⟨poppedStore, List.replicate matchingAttempts changed ++ later, 1⟩, .default, 1⟩ =
        (.error (.ofCommit "pop_waiting_parties" .alreadyExists (.rejected .aborted)),
          ⟨⟨poppedStore, later, 4⟩, .default, 4⟩) := by
  have alone : annsRequest.party.players = ["ann"] := by decide
  refine (Procedure.run_bind_ok (run_getStored_singleton get_annsRequest)).trans ?_
  exact Procedure.run_bind_error (run_setMatching_changed alone get_annsOwnRequest 2 1 1 .default)

/-- A pop of Ann's party fails and puts the party back. -/
theorem run_pop_contested (later : List (Option Fault)) :
    (pop "duel" 1).run Connection.serve (contested later) =
      (.error (.ofCommit "pop_waiting_parties" .alreadyExists (.rejected .aborted)),
        ((putBack "duel" [⟨"p", .ofNat 0⟩]).run Connection.serve
          ⟨⟨poppedStore, later, 4⟩, .default, 4⟩).2) :=
  run_pop_failed (by decide) (run_dequeue_contested later) rfl (run_takeOver_contested later)

/-- The party is back in the queue after a pop that could not set Ann to matching. -/
theorem party_back_in_queue :
    let run := (pop "duel" 1).run Connection.serve (contested [])
    (∃ e, run.1 = .error e ∧ e.isRetryable) ∧
      run.2.database.keyspace.sortedSetAt? (.queue "duel") = some annsQueue := by
  have withholding : (contested []).Withholding := withholding_contested (by simp)
  intro run
  have ended : run = _ := run_pop_contested []
  have failed := congrArg Prod.fst ended
  refine ⟨⟨_, failed, rfl⟩, ?_⟩
  rcases pop_puts_back withholding sortedSetAt?_annsStore (SortedSet.agrees_empty.insert _) 1 failed
    with back | ⟨⟨n, fault, last, met⟩, -⟩
  · exact back
  · have received : run.2.database.received = 5 := by
      rw [ended]
      rfl
    have place : 5 = 0 + (n + 1) := received.symm.trans last
    obtain rfl : n = 4 := by omega
    contradiction

/-- A pop that fails with a retryable error can lose a queued party: if the batch that
puts the party back fails as well, the queue is empty. -/
theorem retryable_pop_loses_party :
    ¬ ∀ (c : Connection) (queue : String) (count : Nat) (set : SortedSet) (e : GatewayError),
      c.Withholding → c.database.keyspace.sortedSetAt? (.queue queue) = some set → set.Agrees →
      ((pop queue count).run Connection.serve c).1 = .error e → e.isRetryable →
      ((pop queue count).run Connection.serve c).2.database.keyspace.sortedSetAt? (.queue queue) =
        some set := by
  intro never
  have withholding : (contested [some (.fail "down")]).Withholding := by
    refine withholding_contested fun fault mem => ?_
    obtain rfl := Option.some.inj (List.mem_singleton.1 mem)
    trivial
  have ended := run_pop_contested [some (.fail "down")]
  have kept := never _ "duel" 1 annsQueue _ withholding sortedSetAt?_annsStore
    (SortedSet.agrees_empty.insert _) (congrArg Prod.fst ended) rfl
  rw [ended] at kept
  have lost := kept.symm.trans sortedSetAt?_poppedStore
  exact absurd lost (by decide)

end Gateway

end Matchmaking
