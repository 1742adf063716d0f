import Mathlib.Data.Set.Function
import Mathlib.Logic.Relation
import Matchmaking.Proofs.Assignments
import Matchmaking.Proofs.Scenes

/-!
# Deliveries

A player who asks how far a match has come is handed the player's request, and a request that
is over is deleted when it is handed out.  Reading and deleting are two steps, and between them
others may hand the request out, and the player may queue again and end up with a request of
the same text.  Still, whatever calls are made and however their requests interleave, requests
that are over are handed out exactly once (`Course.deliveries`): the calls that hand one out
correspond one to one to the removals of stored requests, and each hands out what it removed.
And a call that nothing interrupts is handed the request (`Course.exists_delivery`).

The read is no part of this.  A deletion goes through only if the store holds the text that was
read, at that very moment, and a call that has deleted a request hands it out with the same
step (`Status.turn`).  Nothing else removes a request (`Operation.present_allEffects`), and only
a call to join makes one where there is none (`Operation.absent_allEffects`).
-/

namespace Matchmaking

/-! ## Stored requests of players -/

namespace Keyspace

/-- Writing a request removes none. -/
theorem present_write {ks : Keyspace} (e : Entry PlayerRequest) {player : String}
    (present : ks[Key.entry PlayerRequest player]? ≠ none) :
    (e.draft.write ks)[Key.entry PlayerRequest player]? ≠ none := by
  unfold Draft.write
  split
  · rw [getElem?_insert]
    split
    · simp
    · exact present
  · exact present

end Keyspace

namespace Operation

/-- What an operation may do to the requests of players: it leaves them alone, or it updates
some, or it makes some, if that is allowed. -/
inductive OnPlayers (makes : Prop) (op : Operation) : Prop where
  | spares (spared : op.Spares (Record.kind PlayerRequest))
  | updates (es : List (Entry PlayerRequest)) (form : op = .update (es.map Entry.draft))
  | creates (es : List (Entry PlayerRequest)) (form : op = .create (es.map Entry.draft))
    (allowed : makes)

variable {makes : Prop} {op : Operation} {ops : List Operation} {ks : Keyspace} {player : String}

/-- What is so of the requests of players stays so if writing a request keeps it. -/
theorem OnPlayers.preserves (h : op.OnPlayers makes) {P : Keyspace → Prop}
    (congr : ∀ {ks ks' : Keyspace}, P ks → (∀ player,
      ks'[Key.entry PlayerRequest player]? = ks[Key.entry PlayerRequest player]?) → P ks')
    (write : ∀ {ks : Keyspace} (e : Entry PlayerRequest), P ks → P (e.draft.write ks))
    (so : P ks) : P (op.effect ks) := by
  have all (es : List (Entry PlayerRequest)) (ks : Keyspace) (so : P ks) :
      P ((es.map Entry.draft).foldl Draft.write ks) := by
    induction es generalizing ks with
    | nil => exact so
    | cons e es ih => exact ih _ (write e so)
  cases h with
  | spares spared => exact congr so fun player => getElem?_effect (spared player) ks
  | updates es form => exact form ▸ all es ks so
  | creates es form allowed => exact form ▸ all es ks so

theorem preserves_allEffects (h : ∀ op ∈ ops, op.OnPlayers makes) {P : Keyspace → Prop}
    (congr : ∀ {ks ks' : Keyspace}, P ks → (∀ player,
      ks'[Key.entry PlayerRequest player]? = ks[Key.entry PlayerRequest player]?) → P ks')
    (write : ∀ {ks : Keyspace} (e : Entry PlayerRequest), P ks → P (e.draft.write ks))
    (so : P ks) : P (allEffects ks ops) := by
  induction ops generalizing ks with
  | nil => exact so
  | cons op ops ih =>
    obtain ⟨first, rest⟩ := List.forall_mem_cons.1 h
    exact ih rest (first.preserves congr write so)

/-- Requests keep the ids of their players. -/
theorem ownIds_allEffects (h : ∀ op ∈ ops, op.OnPlayers makes) (own : ks.OwnIds PlayerRequest) :
    (allEffects ks ops).OwnIds PlayerRequest :=
  preserves_allEffects h Keyspace.OwnIds.congr
    (fun e own => own.write (PlayerRequest.readable e.record)) own

/-- A request that is there stays there. -/
theorem present_allEffects (h : ∀ op ∈ ops, op.OnPlayers makes)
    (present : ks[Key.entry PlayerRequest player]? ≠ none) :
    (allEffects ks ops)[Key.entry PlayerRequest player]? ≠ none :=
  preserves_allEffects h (P := fun ks => ks[Key.entry PlayerRequest player]? ≠ none)
    (fun present same => same player ▸ present)
    (fun e present => Keyspace.present_write e present) present

/-- Operations that may not make requests make none: what they update is there. -/
theorem absent_allEffects (h : ∀ op ∈ ops, op.OnPlayers makes) (forbidden : ¬ makes)
    (holds : ∀ r ∈ allRequirements ops, r.Holds ks)
    (absent : ks[Key.entry PlayerRequest player]? = none) :
    (allEffects ks ops)[Key.entry PlayerRequest player]? = none := by
  refine (getElem?_allEffects_of_not_mem (fun op hop mem => ?_) ks).trans absent
  cases h op hop with
  | spares spared => exact spared player mem
  | creates es form allowed => exact forbidden allowed
  | updates es form =>
    subst form
    obtain ⟨d, hd, key⟩ := List.mem_map.1 mem
    have there := holds_update (fun r hr => holds r (List.mem_flatMap.2 ⟨_, hop, hr⟩)) d hd
    change ks[d.key]? = _ at there
    rw [key, absent] at there
    contradiction

end Operation

/-! ## What calls do to the requests of players -/

namespace Facade

/-- The call is a call to join a queue. -/
def Joins : Facade → Prop
  | join _ _ _ _ => True
  | _ => False

/-- The call asks for a request. -/
def Asks : Facade → Prop
  | status _ => True
  | _ => False

/-- Only calls that ask for requests remove some. -/
theorem Commits.onPlayers {f : Facade} {ops : List Operation} (h : f.Commits ops)
    (other : ¬ f.Asks) : ∀ op ∈ ops, op.OnPlayers f.Joins := by
  intro op hop
  have updating (players : List (Entry PlayerRequest)) (g : PlayerRequest → PlayerRequest) :
      (Custody.updating players g).OnPlayers f.Joins :=
    .updates (players.map (Entry.modify · g)) (by rw [List.map_map]; rfl)
  cases h with
  | creates party | admits e =>
    rcases List.mem_pair.1 hop with rfl | rfl
    · exact .spares (Custody.backstage_party rfl).spares
    · exact .spares (Custody.backstage_member rfl).spares
  | departs m e =>
    rcases List.mem_pair.1 hop with rfl | rfl
    · exact .spares (Custody.backstage_member rfl).spares
    · exact .spares (Custody.backstage_party (Parties.keys_departure e _)).spares
  | queues e leads =>
    simp only [Custody.joining, List.mem_cons, List.not_mem_nil, or_false] at hop
    rcases hop with rfl | rfl | rfl | rfl
    · exact .spares (Operation.draftsOf_singleton _).spares_update
    · exact .spares (Operation.draftsOf_singleton _).spares_create
    · exact .creates _ rfl trivial
    · exact .spares (Operation.spares_enqueue _)
  | pops =>
    obtain rfl := List.mem_singleton.1 hop
    exact .spares (Operation.spares_dequeue _ _)
  | engages players =>
    obtain rfl := List.mem_singleton.1 hop
    exact updating players _
  | returns popped =>
    obtain rfl := List.mem_singleton.1 hop
    exact .spares (Operation.spares_enqueueMembers _ _)
  | decides d e P players =>
    rw [Gateway.Decision.operations_eq] at hop
    split at hop
    · simp only [Custody.concluding, List.mem_cons, List.not_mem_nil, or_false] at hop
      rcases hop with rfl | rfl | rfl
      · exact updating players _
      · exact .spares (Operation.draftsOf_singleton _).spares_update
      · exact .spares (Operation.draftsOf_singleton e).spares_delete
    · rcases List.mem_pair.1 hop with rfl | rfl
      · exact updating players _
      · exact .spares (Operation.spares_enqueue _)
  | forgets e terminal => exact absurd trivial other
  | describes plan =>
    obtain ⟨d, onHash⟩ := Metadata.Task.onHash plan
    exact .spares (onHash op hop).spares

end Facade

/-! ## Asking for a request -/

/-- An entry whose text has not changed is the one that is stored. -/
theorem Entry.Loaded.entry?_of_unchanged {α : Type} [Record α] {e : Entry α} {id : String}
    (loaded : e.Loaded id) {ks : Keyspace} (h : (Requirement.unchanged e.draft).Holds ks) :
    ks.entry? α id = some e := by
  obtain ⟨text, same, read⟩ := loaded.text
  have there : ks[Key.entry α e.id]? = some (.string (e.previous.getD "")) := h
  rw [loaded.id, same] at there
  rw [Keyspace.entry?, there]
  dsimp only [Option.getD_some]
  rw [read]
  rfl

namespace Status

/-- The operation that deletes a request. -/
def forgets (e : Entry PlayerRequest) : List Operation := [.delete [e.draft]]

theorem stageable_forgets (e : Entry PlayerRequest) (settings : Settings) :
    ∀ op ∈ forgets e, op.Stageable settings := List.forall_mem_singleton.2 trivial

/-- What is left of a call that has opened a transaction to delete a request. -/
def deleting (e : Entry PlayerRequest) (tx : Transaction) : Call Report := do
  let _ ← Call.commit "get_join_status" .alreadyExists (Client.commit (tx.stageAll (forgets e)))
  pure (.status e)

/-- What is left of a call that has read a request. -/
def told (e : Entry PlayerRequest) : Call Report :=
  if e.record.state.isTerminal then .ask .begin (deleting e) else pure (.status e)

/-- How far a call is that makes another request. -/
inductive Stage (player : String) : Call Report → Prop where
  /-- It has asked for nothing yet. -/
  | start : Stage player (Facade.status player).call
  /-- It has read a request that is over. -/
  | opening (e : Entry PlayerRequest) (loaded : e.Loaded player)
      (terminal : e.record.state.isTerminal = true) : Stage player (.ask .begin (deleting e))
  /-- It has opened a transaction. -/
  | deleting (e : Entry PlayerRequest) (loaded : e.Loaded player)
      (terminal : e.record.state.isTerminal = true) (id : Nat) (settings : Settings) :
      Stage player (deleting e (.empty id settings))

/-- What becomes of a call with an answer. -/
inductive Turn (player : String) (ks : Keyspace) : Call Report → Keyspace → Prop where
  /-- It goes on, and the store is as it was. -/
  | goesOn {r : Request} {next : r.Answer → Call Report} (stage : Stage player (.ask r next)) :
      Turn player ks (.ask r next) ks
  /-- It returns, but no request that is over, and the store is as it was. -/
  | returns {result : Except GatewayError Report}
      (ongoing : ∀ e, result = .ok (.status e) → e.record.state.isTerminal = false) :
      Turn player ks (.done result) ks
  /-- It returns the stored request, which is over, and the request is gone. -/
  | delivers {e : Entry PlayerRequest} (stored : ks.entry? PlayerRequest player = some e)
      (terminal : e.record.state.isTerminal = true) :
      Turn player ks (.done (.ok (.status e))) (ks.erase (.entry PlayerRequest player))

/-- The call reads a request, and then it is told the request. -/
theorem call_eq (player : String) : ∃ next,
    (Facade.status player).call = .ask (.readString (.entry PlayerRequest player)) next ∧
      ∀ ks : Keyspace, next (ks.string (.entry PlayerRequest player)) =
        match ks.get PlayerRequest player with
        | .ok (some e) => told e
        | .ok none => .done (.error (.notFound ("join request for player " ++ player)))
        | .error e => .done (.error (.store e)) := by
  refine ⟨_, rfl, fun ks => ?_⟩
  unfold Keyspace.get
  cases ks.string (.entry PlayerRequest player) with
  | error e => rfl
  | ok text =>
    simp only [Procedure.bind]
    generalize (Client.entryOfText text : Except StoreError (Option (Entry PlayerRequest))) = found
    cases found with
    | error e => rfl
    | ok found =>
      cases found with
      | none => rfl
      | some e =>
        simp only [Procedure.mapError, Except.mapError, pure, Procedure.bind, told]
        split
        · exact congrArg (Procedure.ask .begin) (funext fun tx => Procedure.bind_bind _ _ _)
        · rfl

/-- A transaction that deletes a request is executed, and then the call is over. -/
theorem deleting_eq (e : Entry PlayerRequest) (id : Nat) (settings : Settings) :
    deleting e (.empty id settings) =
      .ask (.execute (Keyspace.batchOf (forgets e))) fun outcome =>
        (Procedure.done (((Transaction.empty id settings).stageAll (forgets e)).conclude
          outcome)).mapError (.ofCommit "get_join_status" .alreadyExists) >>= fun _ =>
            pure (.status e) := by
  have something : ¬ (Operation.allCommands (forgets e) = [] ∧
      Operation.allDemands (forgets e) = []) := fun nothing => List.cons_ne_nil _ _ nothing.1
  rw [deleting, Call.commit, Client.commit,
    Transaction.submission_stageAll id (stageable_forgets e settings), if_neg something]
  rfl

variable {player : String} {e : Entry PlayerRequest} {ks ks' : Keyspace}

/-- A request that is stored can be deleted. -/
theorem execute_forgets (stored : ks.entry? PlayerRequest player = some e) (own : e.id = player) :
    ks.execute (Keyspace.batchOf (forgets e)) =
      (.ok (.committed (ks.answers (Operation.allCommands (forgets e)))),
        ks.erase (.entry PlayerRequest player)) := by
  subst own
  obtain ⟨present, unchanged⟩ := Keyspace.unchanged_of_entry? stored (d := e.draft) rfl rfl
  exact Keyspace.execute_committed (stageable_forgets e .default)
    (List.forall_mem_cons.2 ⟨present, List.forall_mem_singleton.2 unchanged⟩)
    (Keyspace.firstMismatch_untyped _ (List.forall_mem_singleton.2 rfl))

/-- One answer to a call. -/
theorem turn (own : ks.OwnIds PlayerRequest) {r : Request} {next : r.Answer → Call Report}
    (stage : Stage player (.ask r next)) {answer : r.Answer} (answered : Answered ks r answer ks') :
    Turn player ks (next answer) ks' := by
  generalize form : Procedure.ask r next = rest at stage
  cases stage with
  | start =>
    obtain ⟨next', call, reads⟩ := call_eq player
    rw [call] at form
    cases form
    obtain ⟨rfl, rfl⟩ := answered.readString_inv
    rw [reads]
    cases got : ks'.get PlayerRequest player with
    | error e => exact .returns fun _ same => by contradiction
    | ok found =>
      cases found with
      | none => exact .returns fun _ same => by contradiction
      | some e =>
        have stored := Keyspace.get_eq_ok got
        have own := own player e stored
        dsimp only
        unfold told
        split
        next terminal =>
          exact .goesOn (.opening e (Keyspace.loaded_of_entry? stored own) terminal)
        next ongoing =>
          refine .returns fun e' same => ?_
          injection same with same
          injection same with same
          exact same ▸ Bool.eq_false_iff.2 ongoing
  | opening e loaded terminal =>
    cases form
    obtain ⟨rfl, id, settings, rfl⟩ := answered.begin_inv
    have stage := Stage.deleting e loaded terminal id settings
    rw [deleting_eq] at stage ⊢
    exact .goesOn stage
  | deleting e loaded terminal id settings =>
    rw [deleting_eq] at form
    cases form
    have staged := stageable_forgets e settings
    obtain ⟨rfl, rfl⟩ := answered.execute_inv
    by_cases holds : ∀ r ∈ Operation.allRequirements (forgets e), r.Holds ks
    · have stored := loaded.entry?_of_unchanged
        (Operation.holds_delete (Operation.holds_cons holds).1 e.draft List.mem_cons_self)
      rw [execute_forgets stored loaded.id]
      dsimp only
      rw [Transaction.conclude_committed id staged]
      exact .delivers stored terminal
    · obtain ⟨rejection, -, reported⟩ := Transaction.conclude_rejected id staged ks
      rw [Keyspace.execute_rejected staged holds]
      dsimp only
      rw [reported]
      exact .returns fun _ same => by contradiction

end Status

/-! ## Steps of calls -/

namespace Scene

/-- Between two scenes, the request of a player is removed. -/
def Removes (s s' : Scene) (player : String) : Prop :=
  s.keyspace[Key.entry PlayerRequest player]? ≠ none ∧
    s'.keyspace[Key.entry PlayerRequest player]? = none

/-- Between two scenes, a player gets a request. -/
def Makes (s s' : Scene) (player : String) : Prop :=
  s.keyspace[Key.entry PlayerRequest player]? = none ∧
    s'.keyspace[Key.entry PlayerRequest player]? ≠ none

/-- A call has asked for the request of a player and has been handed one that is over. -/
structure Delivered (s : Scene) (i : Nat) (player : String) (e : Entry PlayerRequest) : Prop where
  returned : s.calls i = some (.status player, .done (.ok (.status e)))
  terminal : e.record.state.isTerminal = true

/-- A step of a call hands out the stored request of a player, and removes it. -/
structure Hands (s : Scene) (i : Nat) (player : String) (e : Entry PlayerRequest) (s' : Scene) :
    Prop where
  stored : s.keyspace.entry? PlayerRequest player = some e
  waits : ∃ r next, s.calls i = some (.status player, .ask r next)
  delivered : s'.Delivered i player e
  removed : s'.keyspace = s.keyspace.erase (.entry PlayerRequest player)

/-- A step of a call hands out no request that is over, and removes none.  Requests are made
by calls to join only. -/
structure Quiet (s : Scene) (i : Nat) (s' : Scene) : Prop where
  kept : ∀ player, ¬ s.Removes s' player
  silent : ∀ player e, ¬ s'.Delivered i player e
  made : ∀ player, s.Makes s' player → ∃ f rest, s.calls i = some (f, rest) ∧ f.Joins

/-- What is known of a scene. -/
structure Inv (s : Scene) : Prop where
  agreed : s.Agreed
  own : s.keyspace.OwnIds PlayerRequest
  stage : ∀ i player r next, s.calls i = some (.status player, .ask r next) →
    Status.Stage player (.ask r next)

variable {s s' : Scene} {i j : Nat} {f : Facade} {ks : Keyspace} {rest : Call Report}
  {player : String} {e : Entry PlayerRequest}

theorem inv_initial : Inv initial :=
  ⟨agreed_initial, Keyspace.ownIds_empty, fun _ _ _ _ made => by contradiction⟩

theorem Inv.goOn (h : s.Inv) (agreed : (s.goOn i f ks rest).Agreed) (own : ks.OwnIds PlayerRequest)
    (stage : ∀ player r next, f = .status player → rest = .ask r next →
      Status.Stage player (.ask r next)) : (s.goOn i f ks rest).Inv := by
  refine ⟨agreed, own, fun j player r next made => ?_⟩
  by_cases same : j = i
  · subst same
    obtain ⟨asks, waits⟩ := Prod.mk.inj (Option.some.inj
      ((s.calls_goOn_self j f ks rest).symm.trans made))
    exact stage player r next asks waits
  · exact h.stage j player r next ((Function.update_of_ne same _ _).symm.trans made)

/-- A step that leaves the store alone is quiet, unless it hands out a request that is over. -/
theorem Quiet.of_same (silent : ∀ player e, ¬ (s.goOn i f s.keyspace rest).Delivered i player e) :
    Quiet s i (s.goOn i f s.keyspace rest) where
  kept _ removes := removes.1 removes.2
  silent := silent
  made _ makes := absurd makes.1 makes.2

theorem delivered_goOn (h : (s.goOn i f ks rest).Delivered i player e) :
    f = .status player ∧ rest = .done (.ok (.status e)) :=
  Prod.mk.inj (Option.some.inj ((s.calls_goOn_self i f ks rest).symm.trans h.returned))

/-- A call that is made is quiet. -/
theorem Inv.start (h : s.Inv) (idle : s.calls i = none) :
    (s.goOn i f s.keyspace f.call).Inv ∧ Quiet s i (s.goOn i f s.keyspace f.call) := by
  refine ⟨h.goOn (Step.agreed (.start f idle) h.agreed) h.own fun player r next asks waits =>
    ?_, .of_same fun player e delivered => ?_⟩
  · subst asks
    exact waits ▸ .start
  · obtain ⟨rfl, ended⟩ := delivered_goOn delivered
    obtain ⟨next, call, -⟩ := Status.call_eq player
    rw [call] at ended
    contradiction

/-- An answer to a call that asks for a request: it is quiet, or the call hands out the stored
request. -/
theorem Inv.advance_status (h : s.Inv) {r : Request} {next : r.Answer → Call Report}
    (waits : s.calls i = some (.status player, .ask r next)) {answer : r.Answer}
    (answered : Answered s.keyspace r answer ks) :
    (s.goOn i (.status player) ks (next answer)).Inv ∧
      ((∃ e, Hands s i player e (s.goOn i (.status player) ks (next answer))) ∨
        Quiet s i (s.goOn i (.status player) ks (next answer))) := by
  have turn := Status.turn h.own (h.stage i player r next waits) answered
  have agreed := Step.agreed (.advance (.status player) r next waits answer ks answered) h.agreed
  generalize next answer = rest at turn agreed ⊢
  cases turn with
  | goesOn stage =>
    refine ⟨h.goOn agreed h.own fun player' r' next' asks form => ?_,
      .inr (.of_same fun player' e delivered => ?_)⟩
    · cases asks
      exact form ▸ stage
    · exact absurd (delivered_goOn delivered).2 (by simp)
  | returns ongoing =>
    refine ⟨h.goOn agreed h.own fun player' r' next' asks form => by contradiction,
      .inr (.of_same fun player' e delivered => ?_)⟩
    have ended := (delivered_goOn delivered).2
    injection ended with ended
    have terminal := delivered.terminal
    rw [ongoing e ended] at terminal
    contradiction
  | @delivers e stored terminal =>
    refine ⟨h.goOn agreed (h.own.erase player)
      fun player' r' next' asks form => by contradiction, .inl ⟨e, ?_⟩⟩
    exact ⟨stored, ⟨r, next, waits⟩, ⟨s.calls_goOn_self i _ _ _, terminal⟩, rfl⟩

/-- An answer to another call is quiet. -/
theorem Inv.advance_other (h : s.Inv) (other : ¬ f.Asks) {r : Request}
    {next : r.Answer → Call Report} (waits : s.calls i = some (f, .ask r next)) {answer : r.Answer}
    (answered : Answered s.keyspace r answer ks) :
    (s.goOn i f ks (next answer)).Inv ∧ Quiet s i (s.goOn i f ks (next answer)) := by
  have agreed := Step.agreed (.advance f r next waits answer ks answered) h.agreed
  have stage (own : ks.OwnIds PlayerRequest) : (s.goOn i f ks (next answer)).Inv :=
    h.goOn agreed own fun player r next asks _ => absurd (asks ▸ trivial) other
  have silent (player : String) (e : Entry PlayerRequest) :
      ¬ (s.goOn i f ks (next answer)).Delivered i player e := fun delivered =>
    other ((delivered_goOn delivered).1 ▸ trivial)
  rcases ((h.agreed i f _ waits).answered answered).2 with rfl | ⟨ops, commits, holds, rfl⟩
  · exact ⟨stage h.own, .of_same silent⟩
  · have players := commits.onPlayers other
    refine ⟨stage (Operation.ownIds_allEffects players h.own), ?_, silent, ?_⟩
    · exact fun player removes => Operation.present_allEffects players removes.1 removes.2
    · intro player makes
      refine ⟨f, _, waits, ?_⟩
      by_contra forbidden
      exact makes.2 (Operation.absent_allEffects players forbidden holds makes.1)

/-- A step is quiet, or it hands out the stored request of a player and removes it. -/
theorem Inv.step (h : s.Inv) (step : Step s i s') :
    s'.Inv ∧ ((∃ player e, Hands s i player e s') ∨ Quiet s i s') := by
  cases step with
  | start f idle =>
    obtain ⟨inv, quiet⟩ := h.start (f := f) idle
    exact ⟨inv, .inr quiet⟩
  | advance f r next waits answer ks answered =>
    by_cases asks : f.Asks
    · cases f with
      | status player =>
        obtain ⟨inv, hands | quiet⟩ := h.advance_status waits answered
        · exact ⟨inv, .inl ⟨player, hands⟩⟩
        · exact ⟨inv, .inr quiet⟩
      | _ => exact asks.elim
    · obtain ⟨inv, quiet⟩ := h.advance_other asks waits answered
      exact ⟨inv, .inr quiet⟩

theorem Reachable.inv (reach : s.Reachable) : s.Inv := by
  induction reach with
  | initial => exact inv_initial
  | step _ step ih => exact (ih.step step).1

theorem goOn_goOn (s : Scene) (i : Nat) (f f' : Facade) (ks ks' : Keyspace)
    (rest rest' : Call Report) : (s.goOn i f ks rest).goOn i f' ks' rest' = s.goOn i f' ks' rest' :=
  congrArg (Scene.mk ks') (Function.update_idem _ _ _)

/-- An answer to a call that has just gone on. -/
theorem Step.goOn (s : Scene) (i : Nat) (f : Facade) {r : Request} {next : r.Answer → Call Report}
    {answer : r.Answer} {ks ks' : Keyspace} {rest : Call Report}
    (answered : Answered ks r answer ks') (goes : next answer = rest) :
    Step (s.goOn i f ks (.ask r next)) i (s.goOn i f ks' rest) :=
  goes ▸ s.goOn_goOn i f f ks ks' _ _ ▸
    .advance f r next (s.calls_goOn_self i f ks _) answer ks' answered

/-- A call that nothing interrupts runs to its end. -/
theorem Reachable.run (reach : s.Reachable) (idle : s.calls i = none) (f : Facade) {c : Connection}
    (calm : c.database.faults = []) (store : c.database.keyspace = s.keyspace) :
    (s.goOn i f (f.call.run Connection.serve c).2.database.keyspace
      (.done (f.call.run Connection.serve c).1)).Reachable :=
  Procedure.run_induction (P := fun rest ks => (s.goOn i f ks rest).Reachable)
    (fun reach answered => reach.step (.goOn s i f answered rfl)) calm
    (store ▸ reach.step (.start f idle))

/-- The steps of a call lead to reachable scenes. -/
theorem Reachable.steps (reach : s.Reachable)
    (steps : Relation.ReflTransGen (fun s s' => Step s i s') s s') : s'.Reachable := by
  induction steps with
  | refl => exact reach
  | tail _ step ih => exact ih.step step

/-- A call that nothing interrupts is handed the request if it is over. -/
theorem Inv.delivers (h : s.Inv) (idle : s.calls i = none)
    (stored : s.keyspace.entry? PlayerRequest player = some e)
    (terminal : e.record.state.isTerminal = true) :
    ∃ s', Relation.ReflTransGen (fun s s' => Step s i s') s s' ∧ s'.Delivered i player e := by
  have own : e.id = player := h.own player e stored
  let asks := Facade.status player
  obtain ⟨next, call, reads⟩ := Status.call_eq player
  have told : next (s.keyspace.string (.entry PlayerRequest player)) =
      .ask .begin (Status.deleting e) := by
    rw [reads, Keyspace.get_of_entry? stored]
    exact if_pos terminal
  have start : Step s i (s.goOn i asks s.keyspace
      (.ask (.readString (.entry PlayerRequest player)) next)) := call ▸ .start asks idle
  have read : Step _ i (s.goOn i asks s.keyspace (.ask .begin (Status.deleting e))) :=
    .goOn s i asks (.readString s.keyspace (.entry PlayerRequest player)) told
  have opened : Step _ i (s.goOn i asks s.keyspace (Status.deleting e (.empty 1 .default))) :=
    .goOn s i asks (.begin s.keyspace) rfl
  have deleted : Step (s.goOn i asks s.keyspace (Status.deleting e (.empty 1 .default))) i
      (s.goOn i asks (s.keyspace.erase (.entry PlayerRequest player))
        (.done (.ok (.status e)))) := by
    have executed := Answered.execute s.keyspace (Keyspace.batchOf (Status.forgets e))
    rw [Status.execute_forgets stored own] at executed
    rw [Status.deleting_eq]
    refine .goOn s i asks executed ?_
    dsimp only
    rw [Transaction.conclude_committed 1 (Status.stageable_forgets e _)]
    rfl
  exact ⟨_, .head start (.head read (.head opened (.single deleted))), s.calls_goOn_self i _ _ _,
    terminal⟩

theorem Hands.removes (h : Hands s i player e s') : s.Removes s' player := by
  obtain ⟨text, stored, -⟩ := Keyspace.text_of_entry? h.stored
  exact ⟨stored ▸ Option.some_ne_none _, by simp [h.removed]⟩

/-- A step that hands out the request of a player removes no other one. -/
theorem Hands.eq_of_removes (h : Hands s i player e s') {player' : String}
    (removes : s.Removes s' player') : player' = player := by
  by_contra other
  exact removes.1 (by simpa [h.removed, Ne.symm other] using removes.2)

/-- A step that hands out a request makes none. -/
theorem Hands.not_makes (h : Hands s i player e s') {player' : String} :
    ¬ s.Makes s' player' := by
  intro makes
  exact makes.2 (by simp [h.removed, makes.1])

/-- A call that is over stays as it is. -/
theorem Delivered.step (h : s.Delivered j player e) (step : Step s i s') :
    s'.Delivered j player e := by
  by_cases same : j = i
  · subst same
    have ended := h.returned
    cases step with
    | start f idle =>
      rw [idle] at ended
      contradiction
    | advance f r next waits answer ks answered =>
      rw [waits] at ended
      cases ended
  · exact ⟨(step.calls_of_ne same).trans h.returned, h.terminal⟩

end Scene

/-! ## Courses of events -/

/-- What happens on a store, one step of a call after the other. -/
structure Course where
  /-- The number of steps. -/
  length : Nat
  /-- The scenes that the steps lead through. -/
  scene : Nat → Scene
  /-- The call that takes a step. -/
  actor : Nat → Nat
  /-- Nothing has happened at first. -/
  start : scene 0 = .initial
  /-- The calls take their steps. -/
  step : ∀ k < length, Scene.Step (scene k) (actor k) (scene (k + 1))

namespace Course

variable (h : Course) {k m i : Nat} {player : String} {e : Entry PlayerRequest}

theorem reachable (within : k ≤ h.length) : (h.scene k).Reachable := by
  induction k with
  | zero => exact h.start ▸ .initial
  | succ k ih => exact (ih (Nat.le_of_succ_le within)).step (h.step k within)

theorem inv (within : k ≤ h.length) : (h.scene k).Inv := (h.reachable within).inv

/-- Nothing happens. -/
def nil : Course where
  length := 0
  scene _ := .initial
  actor _ := 0
  start := rfl
  step _ within := absurd within (Nat.not_lt_zero _)

/-- One more step is taken. -/
def snoc (s : Scene) (step : Scene.Step (h.scene h.length) i s) : Course where
  length := h.length + 1
  scene := Function.update h.scene (h.length + 1) s
  actor := Function.update h.actor h.length i
  start := (Function.update_of_ne (Nat.succ_ne_zero _).symm _ _).trans h.start
  step k within := by
    rw [Function.update_of_ne (Nat.ne_of_lt within)]
    rcases Nat.lt_succ_iff_lt_or_eq.1 within with earlier | rfl
    · rw [Function.update_of_ne (Nat.ne_of_lt earlier),
        Function.update_of_ne (Nat.ne_of_lt (Nat.succ_lt_succ earlier))]
      exact h.step k earlier
    · rw [Function.update_self, Function.update_self]
      exact step

/-- A course leads to every reachable scene. -/
theorem exists_of_reachable {s : Scene} (reach : s.Reachable) :
    ∃ h : Course, h.scene h.length = s := by
  induction reach with
  | initial => exact ⟨nil, rfl⟩
  | @step s s' i _ step ih =>
    obtain ⟨h, rfl⟩ := ih
    exact ⟨h.snoc s' step, Function.update_self _ _ _⟩

/-- A call that has been handed a request stays so. -/
theorem delivered_later (le : k ≤ m) (within : m ≤ h.length)
    (delivered : (h.scene k).Delivered i player e) : (h.scene m).Delivered i player e := by
  induction le with
  | refl => exact delivered
  | @step m le ih => exact (ih (Nat.le_of_succ_le within)).step (h.step m within)

/-- A removed request is handed out by the call that takes the step. -/
theorem hands_of_removes (within : k < h.length)
    (removes : (h.scene k).Removes (h.scene (k + 1)) player) :
    ∃ e, (h.scene k).Hands (h.actor k) player e (h.scene (k + 1)) := by
  rcases ((h.inv (Nat.le_of_lt within)).step (h.step k within)).2 with ⟨player', e, hands⟩ | quiet
  · obtain rfl := hands.eq_of_removes removes
    exact ⟨e, hands⟩
  · exact absurd removes (quiet.kept player)

/-- A call hands out one request at most. -/
theorem actor_ne_of_lt (lt : k < m) (within : m < h.length) {player' : String}
    (removes : (h.scene k).Removes (h.scene (k + 1)) player)
    (removes' : (h.scene m).Removes (h.scene (m + 1)) player') : h.actor k ≠ h.actor m := by
  intro same
  obtain ⟨e, hands⟩ := h.hands_of_removes (lt.trans within) removes
  obtain ⟨e', hands'⟩ := h.hands_of_removes within removes'
  have ended := (h.delivered_later lt (Nat.le_of_lt within) hands.delivered).returned
  obtain ⟨r, next, waits⟩ := hands'.waits
  rw [same, waits] at ended
  cases ended

/-- A call that has been handed a request was so at some step. -/
theorem exists_hands (within : k ≤ h.length) (delivered : (h.scene k).Delivered i player e) :
    ∃ m < k, h.actor m = i ∧ (h.scene m).Hands i player e (h.scene (m + 1)) := by
  induction k with
  | zero =>
    have nothing := delivered.returned
    rw [h.start] at nothing
    contradiction
  | succ k ih =>
    have step := h.step k within
    have earlier (before : (h.scene k).calls i = (h.scene (k + 1)).calls i) :
        ∃ m < k + 1, h.actor m = i ∧ (h.scene m).Hands i player e (h.scene (m + 1)) := by
      obtain ⟨m, lt, hands⟩ := ih (Nat.le_of_succ_le within)
        ⟨before.trans delivered.returned, delivered.terminal⟩
      exact ⟨m, Nat.lt_succ_of_lt lt, hands⟩
    by_cases same : i = h.actor k
    · subst same
      rcases ((h.inv (Nat.le_of_succ_le within)).step step).2 with ⟨player', e', hands⟩ | quiet
      · cases hands.delivered.returned.symm.trans delivered.returned
        exact ⟨k, Nat.lt_succ_self k, rfl, hands⟩
      · exact absurd delivered (quiet.silent player e)
    · exact earlier (step.calls_of_ne same).symm

/-- A player who has no request and has one later gets it by a call to join. -/
theorem exists_makes (le : k ≤ m) (within : m ≤ h.length)
    (absent : (h.scene k).keyspace[Key.entry PlayerRequest player]? = none)
    (present : (h.scene m).keyspace[Key.entry PlayerRequest player]? ≠ none) :
    ∃ n, k ≤ n ∧ n < m ∧ (h.scene n).Makes (h.scene (n + 1)) player ∧
      ∃ f rest, (h.scene n).calls (h.actor n) = some (f, rest) ∧ f.Joins := by
  induction le with
  | refl => exact absurd absent present
  | @step m le ih =>
    by_cases here : (h.scene m).keyspace[Key.entry PlayerRequest player]? = none
    · have makes : (h.scene m).Makes (h.scene (m + 1)) player := ⟨here, present⟩
      rcases ((h.inv (Nat.le_of_succ_le within)).step (h.step m within)).2 with
        ⟨player', e, hands⟩ | quiet
      · exact absurd makes hands.not_makes
      · exact ⟨m, le, Nat.lt_succ_self m, makes, quiet.made player makes⟩
    · obtain ⟨n, after, before, made⟩ := ih (Nat.le_of_succ_le within) here
      exact ⟨n, after, Nat.lt_succ_of_lt before, made⟩

/-- Requests that are over are handed out exactly once.  The calls that have been handed one
correspond one to one to the steps that remove one, and each such step hands out what it
removes, to the player whose request it is.  So no request is removed that is not over.
Between two removals of requests of one player, a call to join makes a new one. -/
theorem deliveries :
    Set.BijOn h.actor
        {k | k < h.length ∧ ∃ player, (h.scene k).Removes (h.scene (k + 1)) player}
        {i | ∃ player e, (h.scene h.length).Delivered i player e} ∧
      (∀ k < h.length, ∀ player, (h.scene k).Removes (h.scene (k + 1)) player →
        ∃ e, (h.scene k).keyspace.entry? PlayerRequest player = some e ∧ e.id = player ∧
          e.record.state.isTerminal = true ∧
          (h.scene h.length).Delivered (h.actor k) player e) ∧
      ∀ k k' player, k < k' → k' < h.length → (h.scene k).Removes (h.scene (k + 1)) player →
        (h.scene k').Removes (h.scene (k' + 1)) player →
          ∃ n, k < n ∧ n < k' ∧ (h.scene n).Makes (h.scene (n + 1)) player ∧
            ∃ f rest, (h.scene n).calls (h.actor n) = some (f, rest) ∧ f.Joins := by
  refine ⟨⟨?_, ?_, ?_⟩, ?_, ?_⟩
  · rintro k ⟨within, player, removes⟩
    obtain ⟨e, hands⟩ := h.hands_of_removes within removes
    exact ⟨player, e, h.delivered_later within (Nat.le_refl _) hands.delivered⟩
  · rintro k ⟨within, player, removes⟩ k' ⟨within', player', removes'⟩ same
    rcases Nat.lt_trichotomy k k' with lt | eq | gt
    · exact absurd same (h.actor_ne_of_lt lt within' removes removes')
    · exact eq
    · exact absurd same.symm (h.actor_ne_of_lt gt within removes' removes)
  · rintro i ⟨player, e, delivered⟩
    obtain ⟨k, within, rfl, hands⟩ := h.exists_hands (Nat.le_refl _) delivered
    exact ⟨k, ⟨within, player, hands.removes⟩, rfl⟩
  · intro k within player removes
    obtain ⟨e, hands⟩ := h.hands_of_removes within removes
    refine ⟨e, hands.stored, ?_, hands.delivered.terminal,
      h.delivered_later within (Nat.le_refl _) hands.delivered⟩
    exact (h.inv (Nat.le_of_lt within)).own player e hands.stored
  · intro k k' player earlier within removes removes'
    exact h.exists_makes earlier (Nat.le_of_lt within) removes.2 removes'.1

/-- Ann has queued her party, and it was decided to be an error. -/
theorem exists_failed_request :
    ∃ s, Scene.Reachable s ∧ s.calls 3 = none ∧ ∃ e : Entry PlayerRequest,
      s.keyspace.entry? PlayerRequest "ann" = some e ∧ e.record.state = .error := by
  obtain ⟨s, reach, shows⟩ := reachable_queuedWorld.shown
  have idle (i : Nat) (later : 1 < i) : s.calls i = none := shows.idle (calls_queuedWorld later)
  have custody := Custody.of_reachable reachable_queuedWorld
  obtain ⟨players, -⟩ := shown_queuedWorld
  obtain ⟨r, request, players⟩ := Option.map_eq_some_iff.1 players
  have listed : "ann" ∈ r.party.players := players ▸ List.mem_singleton_self _
  obtain ⟨before, found, -⟩ := custody.entry?_player request (Custody.mem_players.1 listed)
  have filed := Gateway.Filed.of_custody custody (.of_reachable reachable_queuedWorld.free)
  have applicable : Gateway.Assignment.Applicable ⟨"p", .error⟩ r queuedWorld.ledger.keyspace :=
    .of_custody custody request
  rw [← shows.keyspace] at filed applicable found
  have rewrites : Procedure.Solo .default
      (fun _ ks => Gateway.Assignment.Rewrites ⟨"p", .error⟩ r s.keyspace ks)
      (Facade.assign [⟨"p", .error⟩]).call s.keyspace := by
    refine .bind ((Gateway.assign_solo .default filed _).mono fun result ks ends => ?_)
    obtain ⟨mid, changes, rest⟩ := ends.head applicable
    cases result with
    | ok _ =>
      cases rest
      exact .done changes
    | error e =>
      obtain ⟨done, a, later, split, -⟩ := rest
      simp at split
  let c : Connection := ⟨⟨s.keyspace, [], 0⟩, .default, 0⟩
  have record := (rewrites c rfl rfl rfl).player "ann"
  rw [if_pos listed, Keyspace.record?_of_entry? found] at record
  obtain ⟨after, stored, same⟩ := Option.map_eq_some_iff.1 record
  exact ⟨_, reach.run (c := c) (idle 2 (by decide)) (.assign [⟨"p", .error⟩]) rfl rfl,
    (s.calls_goOn_of_ne (by decide)).trans (idle 3 (by decide)), after, stored,
    congrArg PlayerRequest.state same⟩

/-- Ann asks for her request, which is over.  A step of the call that asks removes it and hands
it out. -/
theorem error_reaches_ann :
    ∃ (h : Course) (k : Nat) (e : Entry PlayerRequest), k < h.length ∧ h.actor k = 3 ∧
      (h.scene k).Removes (h.scene (k + 1)) "ann" ∧
      (h.scene k).keyspace.entry? PlayerRequest "ann" = some e ∧ e.record.state = .error ∧
      (h.scene h.length).Delivered 3 "ann" e := by
  obtain ⟨s, reach, idle, e, stored, failed⟩ := exists_failed_request
  have terminal : e.record.state.isTerminal = true := by rw [failed]; rfl
  obtain ⟨told, steps, delivered⟩ := reach.inv.delivers idle stored terminal
  obtain ⟨h, rfl⟩ := exists_of_reachable (reach.steps steps)
  obtain ⟨handedOut, removed, -⟩ := h.deliveries
  obtain ⟨k, ⟨within, player, removes⟩, actor⟩ := handedOut.surjOn ⟨"ann", e, delivered⟩
  obtain ⟨e', stored', -, -, delivered'⟩ := removed k within player removes
  rw [actor] at delivered'
  cases delivered'.returned.symm.trans delivered.returned
  exact ⟨h, k, e, within, actor, removes, stored', failed, delivered⟩

/-- A player whose request is over is handed it by a call that nothing interrupts. -/
theorem exists_delivery (within : k ≤ h.length) (idle : (h.scene k).calls i = none)
    (stored : (h.scene k).keyspace.entry? PlayerRequest player = some e)
    (terminal : e.record.state.isTerminal = true) :
    ∃ s, Relation.ReflTransGen (fun s s' => Scene.Step s i s') (h.scene k) s ∧
      s.Delivered i player e :=
  (h.inv within).delivers idle stored terminal

end Course

end Matchmaking
