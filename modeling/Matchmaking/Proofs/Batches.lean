import Matchmaking.Proofs.Assigning
import Matchmaking.Proofs.Deployments
import Matchmaking.Proofs.Returning

/-!
# The batches of the calls

A client calls for parties, for matchmaking or for the metadata of deployments (`Facade`),
and each call ends with a `Report`.  What a call may do to a store is in the operations that
it commits, and these have one of a few forms (`Facade.Commits`), whatever the store answers
on the way (`Facade.sends_call`).

A `Scene` is a store with calls under way.  Their requests are answered one at a time, in
any order.
-/

namespace Matchmaking

/-! ## The batches of a procedure -/

namespace Procedure

variable {ε δ α β : Type} {P : List Operation → Prop}

/-- Whatever a store answers, every batch of the procedure comes from operations as
agreed. -/
def Sends (P : List Operation → Prop) : Procedure ε α → Prop
  | .done _ => True
  | .ask r next =>
    (∀ batch, r = .execute batch → ∃ ops settings, (∀ op ∈ ops, op.Stageable settings) ∧
      batch = Keyspace.batchOf ops ∧ P ops) ∧
    ∀ ks answer after, Answered ks r answer after → Sends P (next answer)

namespace Sends

theorem bind {p : Procedure ε α} {f : α → Procedure ε β} (h : p.Sends P)
    (rest : ∀ a, (f a).Sends P) : (p >>= f).Sends P := by
  induction p with
  | done result =>
    cases result with
    | ok a => exact rest a
    | error e => trivial
  | ask r next ih =>
    exact ⟨h.1, fun ks answer after answered => ih answer (h.2 ks answer after answered)⟩

/-- What follows a result only follows a good one. -/
theorem after {result : Except ε α} {f : α → Procedure ε β}
    (rest : ∀ a, result = .ok a → (f a).Sends P) : (Procedure.done result >>= f).Sends P := by
  cases result with
  | ok a => exact rest a rfl
  | error e => trivial

theorem handle {p : Procedure ε α} {f : ε → Procedure ε α} (h : p.Sends P)
    (rest : ∀ e, (f e).Sends P) : (p.handle f).Sends P := by
  induction p with
  | done result =>
    cases result with
    | ok a => trivial
    | error e => exact rest e
  | ask r next ih =>
    exact ⟨h.1, fun ks answer after answered => ih answer (h.2 ks answer after answered)⟩

theorem mapError {p : Procedure ε α} (h : p.Sends P) (f : ε → δ) : (p.mapError f).Sends P := by
  induction p with
  | done result => trivial
  | ask r next ih =>
    exact ⟨h.1, fun ks answer after answered => ih answer (h.2 ks answer after answered)⟩

theorem attempt {p : Procedure ε α} (h : p.Sends P) :
    (p.attempt : Procedure δ (Except ε α)).Sends P := by
  induction p with
  | done result => trivial
  | ask r next ih =>
    exact ⟨h.1, fun ks answer after answered => ih answer (h.2 ks answer after answered)⟩

theorem mono {Q : List Operation → Prop} {p : Procedure ε α} (h : p.Sends P)
    (weaker : ∀ ops, P ops → Q ops) : p.Sends Q := by
  induction p with
  | done result => trivial
  | ask r next ih =>
    refine ⟨fun batch same => ?_, fun ks answer after answered =>
      ih answer (h.2 ks answer after answered)⟩
    obtain ⟨ops, settings, staged, form, agreed⟩ := h.1 batch same
    exact ⟨ops, settings, staged, form, weaker ops agreed⟩

/-! ### Reads and commits -/

theorem get (α : Type) [Record α] (id : String) : (Client.get α id).Sends P :=
  bind (p := Client.getString (.entry α id))
    ⟨fun _ same => by contradiction, fun _ _ _ _ => trivial⟩ fun _ => trivial

theorem getOr (α : Type) [Record α] (id : String) (missing : GatewayError) :
    (Call.getOr α id missing).Sends P :=
  bind ((get α id).mapError _) fun found => by cases found <;> trivial

theorem getStored (α : Type) [Record α] (ids : List String) :
    (Call.getStored α ids).Sends P := by
  induction ids with
  | nil => trivial
  | cons id ids ih => exact bind ((get α id).mapError _) fun _ => bind ih fun _ => trivial

theorem commit {ops : List Operation} (agreed : P ops) (id : Nat) (settings : Settings) :
    (Client.commit ((Transaction.empty id settings).stageAll ops)).Sends P := by
  by_cases staged : ∀ op ∈ ops, op.Stageable settings
  · rw [Client.commit, Transaction.submission_stageAll id staged]
    by_cases empty : Operation.allCommands ops = [] ∧ Operation.allDemands ops = []
    · rw [if_pos empty]
      trivial
    · rw [if_neg empty]
      refine ⟨fun batch same => ⟨ops, settings, staged, ?_, agreed⟩, fun _ _ _ _ => trivial⟩
      injection same with same
      exact same.symm
  · have deferred : ((Transaction.empty id settings).stageAll ops).deferred ≠ none :=
      fun none => staged (Transaction.deferred_stageAll.1 none).1
    obtain ⟨e, failed⟩ := Option.ne_none_iff_exists'.1 deferred
    rw [Client.commit, Transaction.submission, failed]
    trivial

theorem transact {ops : List Operation} (agreed : P ops) : (Client.transact ops).Sends P := by
  refine ⟨fun _ same => by contradiction, fun ks tx after answered => ?_⟩
  obtain ⟨-, id, settings, rfl⟩ := answered.begin_inv
  exact commit agreed id settings

/-- A call that commits and then is over. -/
theorem commits {ops : List Operation} (agreed : P ops) (name : String)
    (onExists : String → GatewayError) {f : Commit → Call α} (rest : ∀ commit, (f commit).Sends P) :
    (Call.commit name onExists (Client.transact ops) >>= f).Sends P :=
  bind ((transact agreed).mapError _) rest

/-- One answer to a procedure leaves the store alone, or operations as agreed take effect. -/
theorem answered {r : Request} {next : r.Answer → Procedure ε α}
    (h : (Procedure.ask r next).Sends P)
    {ks ks' : Keyspace} {answer : r.Answer} (answered : Answered ks r answer ks') :
    (next answer).Sends P ∧ (ks' = ks ∨ ∃ ops, P ops ∧
      (∀ r ∈ Operation.allRequirements ops, r.Holds ks) ∧ ks' = Operation.allEffects ks ops) := by
  refine ⟨h.2 ks answer ks' answered, ?_⟩
  cases r with
  | execute batch =>
    obtain ⟨ops, settings, staged, rfl, agreed⟩ := h.1 batch rfl
    obtain ⟨-, rfl⟩ := answered.execute_inv
    by_cases holds : ∀ r ∈ Operation.allRequirements ops, r.Holds ks
    · cases fit : Keyspace.firstMismatch ks.types (Operation.allCommands ops) with
      | none =>
        rw [Keyspace.execute_committed staged holds fit]
        exact .inr ⟨ops, agreed, holds, rfl⟩
      | some misfit =>
        rw [Keyspace.execute_mistyped staged holds fit]
        exact .inl rfl
    · rw [Keyspace.execute_rejected staged holds]
      exact .inl rfl
  | _ =>
    cases answered with
    | serve c store calm => exact .inl store

end Sends

end Procedure

/-! ## Calls and what they report -/

/-- A call of a client. -/
inductive Facade where
  /-- Creates a party. -/
  | createParty (id leader token : String) (min max : UInt32)
  /-- Joins a party. -/
  | joinParty (player token party : String)
  /-- Leaves the party. -/
  | leaveParty (player : String)
  /-- Asks for the party. -/
  | partyOf (player : String)
  /-- Queues the party. -/
  | join (player matchmakingType : String) (metadata : TextMap) (now : Score)
  /-- Pops parties off a queue. -/
  | pop (queue : String) (count : Nat)
  /-- Carries out decisions. -/
  | assign (assignments : List Gateway.Assignment)
  /-- Asks how far a match has come. -/
  | status (player : String)
  /-- Asks for the metadata of a deployment or changes it. -/
  | deployment (task : Metadata.Task)

/-- What a call ends with. -/
inductive Report where
  /-- Nothing but that it is done. -/
  | done
  /-- A party. -/
  | party (e : Entry Party)
  /-- The party of a player, if there is one. -/
  | partyOf (found : Option (Entry Party))
  /-- The request of a party that was queued. -/
  | queued (e : Entry PartyRequest)
  /-- The requests of parties that were popped. -/
  | popped (requests : List (Entry PartyRequest))
  /-- The request of a player. -/
  | status (e : Entry PlayerRequest)
  /-- An answer about metadata. -/
  | metadata (answer : Metadata.Answer)

/-- What a call does. -/
def Facade.call : Facade → Call Report
  | createParty id leader token min max => return .party (← Parties.create id leader token min max)
  | joinParty player token party => return .party (← Parties.join player token party)
  | leaveParty player => do Parties.leave player; pure .done
  | partyOf player => return .partyOf (← Parties.ofPlayer player)
  | join player matchmakingType metadata now =>
    return .queued (← Gateway.join player matchmakingType metadata now)
  | pop queue count => return .popped (← Gateway.pop queue count)
  | assign assignments => do Gateway.assign assignments; pure .done
  | status player => return .status (← Gateway.status player)
  | deployment task => return .metadata (← task.call)

/-! ## What calls commit -/

/-- The operations that a call may commit. -/
inductive Facade.Commits : Facade → List Operation → Prop where
  /-- A party and the membership of its leader are made. -/
  | creates {id leader token : String} {min max : UInt32} (party : Party) :
      Commits (createParty id leader token min max)
        [.create [(Entry.fresh party).draft],
          .create [(Entry.fresh (⟨leader, id⟩ : Member)).draft]]
  /-- A party gets another member. -/
  | admits {player token party : String} (e : Entry Party) :
      Commits (joinParty player token party)
        [.update [e.draft], .create [(Entry.fresh (⟨player, party⟩ : Member)).draft]]
  /-- A party loses a member. -/
  | departs {player : String} (m : Entry Member) (e : Entry Party) :
      Commits (leaveParty player) [.delete [m.draft], Parties.departure e player]
  /-- A party is queued. -/
  | queues {player matchmakingType : String} {metadata : TextMap} {now : Score} (e : Entry Party)
      (leads : e.record.leader = player) :
      Commits (join player matchmakingType metadata now)
        (Custody.joining e matchmakingType metadata now)
  /-- Parties are popped. -/
  | pops {queue : String} {count : Nat} : Commits (pop queue count) [.dequeue queue count]
  /-- The players of popped parties are set to matching. -/
  | engages {queue : String} {count : Nat} (players : List (Entry PlayerRequest)) :
      Commits (pop queue count) [Custody.updating players (·.withState .matching)]
  /-- Popped parties are put back. -/
  | returns {queue : String} {count : Nat} (popped : List ScoredMember) :
      Commits (pop queue count) [.enqueueMembers queue popped]
  /-- A decision is carried out. -/
  | decides {assignments : List Gateway.Assignment} (d : Gateway.Decision)
      (e : Entry PartyRequest) (P : Entry Party) (players : List (Entry PlayerRequest)) :
      Commits (assign assignments) (d.operations e P players)
  /-- A request that is over is deleted. -/
  | forgets {player : String} (e : Entry PlayerRequest)
      (terminal : e.record.state.isTerminal = true) : Commits (status player) [.delete [e.draft]]
  /-- Metadata is changed. -/
  | describes {task : Metadata.Task} {name : String} {ops : List Operation}
      (plan : task.plan = .commit name ops) : Commits (deployment task) ops

namespace Facade

open Procedure

theorem sends_assign (assignments : List Gateway.Assignment) {as : List Gateway.Assignment} :
    (Gateway.assign as).Sends (assign assignments).Commits := by
  induction as with
  | nil => trivial
  | cons a as ih =>
    refine .bind (.bind (.getOr _ _ _) fun e => .bind (.getOr _ _ _) fun P =>
      .bind (.getStored _ _) fun players => ?_) fun _ => ih
    exact .commits (.decides a.decision e P players) _ _ fun _ => trivial

theorem sends_setMatching (queue : String) (count : Nat) (requests : List (Entry PartyRequest))
    (retries : Nat) : (Gateway.setMatching requests retries).Sends (pop queue count).Commits := by
  have tried : (Gateway.tryMatching requests).Sends (pop queue count).Commits := by
    unfold Gateway.tryMatching
    rw [Gateway.playerRequests_eq]
    exact .bind (.getStored _ _) fun players => (Sends.transact (.engages players)).attempt
  have ended (result : Except StoreError Commit) :
      (Gateway.endMatching result).Sends (pop queue count).Commits := by
    cases result <;> trivial
  induction retries with
  | zero => exact .bind tried ended
  | succ retries ih =>
    refine .bind tried fun result => ?_
    cases result with
    | ok commit => trivial
    | error e =>
      dsimp only
      split
      · exact ih
      · exact ended _

theorem sends_pop (queue : String) (count : Nat) :
    (Gateway.pop queue count).Sends (pop queue count).Commits := by
  by_cases none : count = 0
  · rw [Gateway.pop, if_pos none]
    trivial
  · rw [Gateway.pop_eq none]
    refine ⟨fun _ same => by contradiction, fun ks tx after answered => ?_⟩
    obtain ⟨-, id, settings, rfl⟩ := answered.begin_inv
    have dequeue : Sends (pop queue count).Commits _ :=
      (Sends.commit .pops id settings).mapError
        (GatewayError.ofCommit "pop_waiting_parties" .alreadyExists)
    refine dequeue.bind fun commit => .handle ?_ fun e => ?_
    · exact .bind (.getStored _ _) fun requests =>
        .bind (sends_setMatching queue count requests _) fun _ => trivial
    · exact .bind (.bind (Sends.attempt (.transact (.returns _))) fun _ => trivial)
        fun _ => trivial

theorem sends_join (player matchmakingType : String) (metadata : TextMap) (now : Score) :
    (Gateway.join player matchmakingType metadata now).Sends
      (join player matchmakingType metadata now).Commits := by
  unfold Gateway.join Parties.ofPlayer
  refine .bind (.bind ((Sends.get _ _).mapError _) fun member => ?_) fun stored => ?_
  · cases member with
    | none => trivial
    | some m => exact (Sends.get _ _).mapError _
  · cases stored with
    | none => trivial
    | some e =>
      refine .after fun _ allowed => ?_
      have leads : e.record.leader = player := by
        unfold Gateway.mayQueue at allowed
        split at allowed
        · contradiction
        · next same => exact not_not.1 same
      exact .commits (.queues e leads) _ _ fun _ => trivial

/-- Whatever a store answers, a call commits nothing else. -/
theorem sends_call (f : Facade) : f.call.Sends f.Commits := by
  cases f with
  | createParty id leader token min max =>
    exact .bind (.after fun party _ => .commits (.creates party) _ _ fun _ => trivial)
      fun _ => trivial
  | joinParty player token party =>
    exact .bind (.bind (.getOr _ _ _) fun stored => .after fun party _ =>
      .commits (.admits ⟨party, stored.previous⟩) _ _ fun _ => trivial) fun _ => trivial
  | leaveParty player =>
    refine .bind (.bind (.getOr _ _ _) fun m => .bind (.getOr _ _ _) fun e => ?_) fun _ => trivial
    dsimp only
    split
    · trivial
    · exact .commits (.departs m e) _ _ fun _ => trivial
  | partyOf player =>
    refine .bind (.bind ((Sends.get _ _).mapError _) fun member => ?_) fun _ => trivial
    cases member with
    | none => trivial
    | some m => exact (Sends.get _ _).mapError _
  | join player matchmakingType metadata now =>
    exact .bind (sends_join player matchmakingType metadata now) fun _ => trivial
  | pop queue count => exact .bind (sends_pop queue count) fun _ => trivial
  | assign assignments => exact .bind (sends_assign assignments) fun _ => trivial
  | status player =>
    refine .bind (.bind (.getOr _ _ _) fun e => ?_) fun _ => trivial
    dsimp only
    split
    next terminal => exact .commits (.forgets e terminal) _ _ fun _ => trivial
    next => trivial
  | deployment task =>
    rw [call, Metadata.Task.call_eq]
    refine .bind ?_ fun _ => trivial
    cases plan : task.plan with
    | refuse e => trivial
    | commit name ops =>
      exact .bind (.commits (.describes plan) _ _ fun _ => trivial) fun _ => trivial
    | read d result =>
      refine .bind (Sends.mapError ?_ _) fun fields => ?_
      · exact ⟨fun _ same => by contradiction, fun _ _ _ _ => trivial⟩
      · trivial

end Facade

/-- An operation works on one hash. -/
inductive Operation.OnHash (hash : Key) : Operation → Prop where
  | create (fields : List (String × String)) : OnHash hash (.createHash hash fields)
  | update (fields : List (String × String)) : OnHash hash (.updateHash hash fields)
  | deleteField (field : String) : OnHash hash (.deleteField hash field)
  | delete : OnHash hash (.deleteKey hash)
  | equals (field value : String) : OnHash hash (.requireFieldEqual hash field value)
  | absent (field : String) : OnHash hash (.requireNoField hash field)

/-- A call about metadata works on the hash of one deployment. -/
theorem Metadata.Task.onHash {task : Task} {name : String} {ops : List Operation}
    (plan : task.plan = .commit name ops) : ∃ d, ∀ op ∈ ops, op.OnHash (key d) := by
  cases task with
  | set d fields =>
    rw [Task.plan] at plan
    split at plan
    · contradiction
    · cases plan
      exact ⟨d, List.forall_mem_singleton.2 (.create _)⟩
  | setField d field value precondition =>
    rw [Task.plan] at plan
    split at plan
    · contradiction
    · cases plan
      refine ⟨d, List.forall_mem_append.2 ⟨?_, List.forall_mem_singleton.2 (.update _)⟩⟩
      cases precondition with
      | always => exact List.forall_mem_nil _
      | equals value => exact List.forall_mem_singleton.2 (.equals field value)
      | absent => exact List.forall_mem_singleton.2 (.absent field)
  | update d fields =>
    cases plan
    exact ⟨d, List.forall_mem_singleton.2 (.update _)⟩
  | deleteField d field =>
    cases plan
    exact ⟨d, List.forall_mem_singleton.2 (.deleteField field)⟩
  | delete d =>
    cases plan
    exact ⟨d, List.forall_mem_singleton.2 .delete⟩
  | _ => contradiction

/-- An operation on a hash leaves other namespaces alone. -/
theorem Operation.OnHash.spares {op : Operation} {d : String} (h : op.OnHash (Metadata.key d))
    {space : String} (apart : Key.Apart space Metadata.deploymentNamespace := by decide) :
    op.Spares space := by
  have other (id : String) : Key.compose space id ∉ [Metadata.key d] :=
    fun mem => Key.compose_ne apart id d (List.mem_singleton.1 mem)
  cases h with
  | equals field value => exact fun _ => List.not_mem_nil
  | absent field => exact fun _ => List.not_mem_nil
  | _ => exact other

/-! ## Calls side by side -/

/-- A store and the calls that are made, with what is left of each. -/
structure Scene where
  /-- The store. -/
  keyspace : Keyspace
  /-- The calls. -/
  calls : Nat → Option (Facade × Call Report)

namespace Scene

/-- The empty store before any call. -/
def initial : Scene := ⟨∅, fun _ => none⟩

/-- A call goes on at a store. -/
def goOn (s : Scene) (i : Nat) (f : Facade) (ks : Keyspace) (rest : Call Report) : Scene :=
  ⟨ks, Function.update s.calls i (some (f, rest))⟩

/-- The steps of a call. -/
inductive Step (s : Scene) (i : Nat) : Scene → Prop where
  /-- The call is made. -/
  | start (f : Facade) (idle : s.calls i = none) : Step s i (s.goOn i f s.keyspace f.call)
  /-- A request of the call is answered. -/
  | advance (f : Facade) (r : Request) (next : r.Answer → Call Report)
      (waits : s.calls i = some (f, .ask r next)) (answer : r.Answer) (ks : Keyspace)
      (answered : Answered s.keyspace r answer ks) : Step s i (s.goOn i f ks (next answer))

/-- The scenes that steps lead to from the empty store. -/
inductive Reachable : Scene → Prop where
  | initial : Reachable initial
  | step {s s' : Scene} {i : Nat} (reach : Reachable s) (step : Step s i s') : Reachable s'

variable {s s' : Scene} {i j : Nat} {f : Facade} {rest : Call Report}

@[simp] theorem calls_goOn_self (s : Scene) (i : Nat) (f : Facade) (ks : Keyspace)
    (rest : Call Report) : (s.goOn i f ks rest).calls i = some (f, rest) :=
  Function.update_self i _ s.calls

theorem calls_goOn_of_ne (s : Scene) {f : Facade} {ks : Keyspace} {rest : Call Report}
    (other : j ≠ i) : (s.goOn i f ks rest).calls j = s.calls j := Function.update_of_ne other _ _

theorem Step.calls_of_ne (step : Step s i s') (other : j ≠ i) : s'.calls j = s.calls j := by
  cases step <;> exact s.calls_goOn_of_ne other

/-- What is left of each call commits what the call may commit. -/
def Agreed (s : Scene) : Prop := ∀ i f rest, s.calls i = some (f, rest) → rest.Sends f.Commits

theorem agreed_initial : Agreed initial := fun i f rest made => by contradiction

theorem Step.agreed (step : Step s i s') (h : s.Agreed) : s'.Agreed := by
  intro j f' rest' made
  by_cases same : j = i
  · subst same
    cases step with
    | start f idle =>
      obtain ⟨rfl, rfl⟩ := Prod.mk.inj (Option.some.inj
        ((s.calls_goOn_self j f s.keyspace f.call).symm.trans made))
      exact f.sends_call
    | advance f r next waits answer ks answered =>
      obtain ⟨rfl, rfl⟩ := Prod.mk.inj (Option.some.inj
        ((s.calls_goOn_self j f ks (next answer)).symm.trans made))
      exact ((h j f _ waits).answered answered).1
  · exact h j f' rest' ((step.calls_of_ne same).symm.trans made)

theorem Reachable.agreed (reach : Reachable s) : s.Agreed := by
  induction reach with
  | initial => exact agreed_initial
  | step _ step ih => exact step.agreed ih

/-- A step leaves the store alone, or what the call may commit takes effect. -/
theorem Step.keyspace (step : Step s i s') (h : s.Agreed) :
    s'.keyspace = s.keyspace ∨ ∃ f rest ops, s.calls i = some (f, rest) ∧ f.Commits ops ∧
      (∀ r ∈ Operation.allRequirements ops, r.Holds s.keyspace) ∧
      s'.keyspace = Operation.allEffects s.keyspace ops := by
  cases step with
  | start f idle => exact .inl rfl
  | advance f r next waits answer ks answered =>
    rcases ((h i f _ waits).answered answered).2 with same | ⟨ops, commits, holds, left⟩
    · exact .inl same
    · exact .inr ⟨f, _, ops, waits, commits, holds, left⟩

end Scene

end Matchmaking
