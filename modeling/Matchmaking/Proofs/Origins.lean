import Matchmaking.Proofs.Scenes
import Matchmaking.Proofs.Whereabouts

/-!
# Where the requests of parties come from

Only a call to join makes the request of a party, under the time that it read off its
clock, and no call ever changes one.  So a request that is stored has been there since a
call to join stored it (`World.JoinedBy`), and its score is the time of that call.

This is read off the operations that a call may commit (`Facade.Commits`), whatever a store
answers.  No more than this has to be known of the calls, and nothing of how they
interleave.
-/

namespace Matchmaking

/-! ## What calls do to the requests of parties -/

/-- Operations of a call leave the request of a party as it is or delete it, unless the
call is a join that makes one. -/
def Activity.Preserves (activity : Activity) (ops : List Operation) : Prop :=
  ∀ ks : Keyspace, (∀ r ∈ Operation.allRequirements ops, r.Holds ks) →
    ∀ p r, (Operation.allEffects ks ops).record? PartyRequest p = some r →
      ks.record? PartyRequest p = some r ∨ ks.record? PartyRequest p = none ∧
        activity = .join r.party.leader r.matchmakingType r.metadata r.score

namespace Activity

variable {activity : Activity} {ops : List Operation}

/-- Operations that write no requests of parties leave them as they are. -/
theorem preserves_of_spares (h : ∀ op ∈ ops, op.Spares (Record.kind PartyRequest)) :
    activity.Preserves ops :=
  fun ks _ p _ stored => .inl ((Operation.record?_allEffects h ks p).symm.trans stored)

/-- A party that is done loses its request. -/
theorem preserves_concluding (players : List (Entry PlayerRequest))
    (f : PlayerRequest → PlayerRequest) (P : Entry Party) (phase : Phase) (e : Entry PartyRequest) :
    activity.Preserves (Custody.concluding players f P phase e) := by
  intro ks _ p r stored
  have others : ∀ op ∈ [Custody.updating players f,
      .update [(P.modify fun P => { P with phase := phase }).draft]],
      op.Spares (Record.kind PartyRequest) :=
    List.forall_mem_cons.2 ⟨Custody.updating_spares,
      List.forall_mem_singleton.2 (Operation.draftsOf_singleton _).spares_update⟩
  have left := (Keyspace.record?_erase (α := PartyRequest) _ e.id p).symm.trans stored
  split at left
  · contradiction
  · exact .inl ((Operation.record?_allEffects others ks p).symm.trans left)

theorem preserves_decision (d : Gateway.Decision) (e : Entry PartyRequest) (P : Entry Party)
    (players : List (Entry PlayerRequest)) : activity.Preserves (d.operations e P players) := by
  cases d with
  | matched id name => exact preserves_concluding players _ P .inGame e
  | requeued => exact preserves_of_spares (Custody.spares_requeuing players e)
  | error => exact preserves_concluding players _ P .forming e

/-- A party that joins had no request and has one under the time of the call. -/
theorem preserves_joining {e : Entry Party} {player : String} (leads : e.record.leader = player)
    (matchmakingType : String) (metadata : TextMap) {now : Score} (proper : now.ReadsBack) :
    (join player matchmakingType metadata now).Preserves
      (Custody.joining e matchmakingType metadata now) := by
  intro ks needs p r stored
  let request := PartyRequest.ofParty { e.record with phase := .matchmaking } matchmakingType
    metadata now
  have party := Operation.draftsOf_singleton (e.modify fun P => { P with phase := .matchmaking })
  have players := Operation.draftsOf_map id ((PlayerRequest.ofParty
    { e.record with phase := .matchmaking } matchmakingType metadata).map Entry.fresh)
  have writes := Entry.draft_writes (e := Entry.fresh request) (PartyRequest.readable proper)
  have made : (Operation.allEffects ks (Custody.joining e matchmakingType metadata
      now)).record? PartyRequest p =
        if p = e.id then some request else ks.record? PartyRequest p :=
    writes.record?_among (fun _ => rfl) [_] [_, _] (List.forall_mem_cons.2 ⟨party.spares_update,
      List.forall_mem_cons.2 ⟨players.spares_create,
        List.forall_mem_singleton.2 (Operation.spares_enqueue _)⟩⟩) ks p
  rw [made] at stored
  split at stored
  next own =>
    obtain ⟨-, needs⟩ := Operation.holds_cons needs
    have new := Operation.holds_create (Operation.holds_cons needs).1 _ List.mem_cons_self
    obtain rfl : request = r := Option.some.inj stored
    refine .inr ⟨own ▸ Keyspace.record?_of_absent new, ?_⟩
    rw [← leads]
    rfl
  next => exact .inl stored

/-- Commits that touch parties only preserve requests. -/
theorem preserves_backstage (h : ∀ op ∈ ops, Custody.Backstage op) : activity.Preserves ops :=
  preserves_of_spares fun op hop => (h op hop).spares

/-- What a call may commit preserves the requests of parties. -/
theorem preserves_of_commits (proper : activity.Proper) (commits : activity.facade.Commits ops) :
    activity.Preserves ops := by
  have single {op : Operation} (h : op.Spares (Record.kind PartyRequest)) :
      activity.Preserves [op] := preserves_of_spares (List.forall_mem_singleton.2 h)
  cases activity with
  | create id leader token min max =>
    cases commits with
    | creates party =>
      exact preserves_backstage (List.forall_mem_cons.2 ⟨Custody.backstage_party rfl,
        List.forall_mem_singleton.2 (Custody.backstage_member rfl)⟩)
  | joinParty player token party =>
    cases commits with
    | admits e =>
      exact preserves_backstage (List.forall_mem_cons.2 ⟨Custody.backstage_party rfl,
        List.forall_mem_singleton.2 (Custody.backstage_member rfl)⟩)
  | leave player =>
    cases commits with
    | departs m e =>
      exact preserves_backstage (List.forall_mem_cons.2 ⟨Custody.backstage_member rfl,
        List.forall_mem_singleton.2 (Custody.backstage_party (Parties.keys_departure e player))⟩)
  | join player matchmakingType metadata now =>
    cases commits with
    | queues e leads =>
      obtain ⟨millis, early, rfl⟩ := proper
      exact preserves_joining leads matchmakingType metadata (Score.readsBack_ofNat early)
  | pop queue count =>
    cases commits with
    | pops => exact single (Operation.spares_dequeue queue count)
    | engages players => exact single Custody.updating_spares
    | returns popped => exact single (Operation.spares_enqueueMembers queue popped)
  | assign assignments =>
    cases commits with
    | decides d e P players => exact preserves_decision d e P players
  | status player =>
    cases commits with
    | forgets e terminal => exact single (Operation.draftsOf_singleton e).spares_delete

end Activity

/-! ## In reachable worlds -/

namespace World

variable {w w' : World} {i j : Nat}

/-- A call stays the call that it is. -/
theorem Step.activity? {D : Discipline} (step : Step D w w') {activity : Activity}
    (made : w.ledger.activity? i = some activity) : w'.ledger.activity? i = some activity := by
  cases step with
  | start j client activity' new _ =>
    have other : i ≠ j := by
      rintro rfl
      rw [Ledger.activity?, new] at made
      contradiction
    rw [activity?_start, if_neg other, made]
  | advance j r next _ _ answer ks _ => rw [activity?_advance, made]

theorem activity?_turn (w : World) : (w.turn i).ledger.activity? j = w.ledger.activity? j := by
  rcases w.turn_cases i with same | ⟨r, next, answer, ks, -, -, same⟩
  · rw [same]
  · rw [same, activity?_advance]

theorem activity?_turns (w : World) (n : Nat) :
    (w.turns i n).ledger.activity? j = w.ledger.activity? j := by
  induction n with
  | zero => rfl
  | succ n ih => exact (activity?_turn _).trans ih

theorem activity?_call (w : World) (client : Nat) (activity : Activity) (n : Nat) :
    ((w.start i client activity).turns i n).ledger.activity? j =
      if j = i then some activity else w.ledger.activity? j := by
  rw [activity?_turns, activity?_start]

/-- Calls are made as callers promise. -/
theorem Reachable.starts {D : Discipline} (reach : Reachable D w) {activity : Activity}
    (made : w.ledger.activity? i = some activity) : D.Starts activity := by
  induction reach with
  | initial => contradiction
  | @step w w' reach step ih =>
    cases step with
    | start j client activity' new starts =>
      rw [activity?_start] at made
      split at made
      · exact Option.some.inj made ▸ starts
      · exact ih made
    | advance j r next waits asks answer ks answered =>
      rw [activity?_advance] at made
      exact ih made

/-- What is left of a call preserves the requests of parties as the call does.  It is what is
left of the call in a scene. -/
theorem Reachable.sends (reach : Reachable .custody w) (i : Nat) :
    (w.rest i).Sends fun ops => ∃ activity, w.ledger.activity? i = some activity ∧
      activity.Preserves ops := by
  obtain ⟨s, reached, shows⟩ := reach.shown
  have call := shows.calls i
  have proper {activity : Activity} : w.ledger.activity? i = some activity → activity.Proper :=
    reach.starts
  generalize made : s.calls i = made at call
  generalize w.ledger.activity? i = activity at call proper ⊢
  generalize w.rest i = rest at call ⊢
  cases call with
  | idle result => trivial
  | made activity rest =>
    refine (reached.agreed i _ rest made).mono (fun ops commits => ?_) |>.bind fun _ => trivial
    exact ⟨activity, rfl, activity.preserves_of_commits (proper rfl) commits⟩

/-- The request of a party that is stored after a step was stored before, or the step
belongs to a call to join that makes the request. -/
theorem Reachable.request_advance (reach : Reachable .custody w) {r : Request}
    {next : r.Answer → Call (List (Entry PartyRequest))} (waits : w.rest i = .ask r next)
    {answer : r.Answer} {ks : Keyspace} (answered : Answered w.ledger.keyspace r answer ks)
    {p : String} {request : PartyRequest}
    (stored : (w.advance i r answer ks (next answer)).ledger.keyspace.record? PartyRequest p =
      some request) :
    w.ledger.keyspace.record? PartyRequest p = some request ∨
      w.ledger.keyspace.record? PartyRequest p = none ∧ w.ledger.activity? i =
        some (.join request.party.leader request.matchmakingType request.metadata
          request.score) := by
  have sends := reach.sends i
  rw [waits] at sends
  rw [w.keyspace_advance _ answered] at stored
  rcases (sends.answered answered).2 with same | ⟨ops, ⟨activity, made, preserves⟩, holds, left⟩
  · exact .inl (same ▸ stored)
  · rw [left] at stored
    exact (preserves _ holds p request stored).imp_right fun ⟨absent, join⟩ =>
      ⟨absent, join ▸ made⟩

/-- The request of a party has been there since a call to join made it. -/
inductive JoinedBy (i : Nat) (p : String) (request : PartyRequest) : World → Prop where
  /-- The call makes the request. -/
  | made {w : World} {r : Request} {next : r.Answer → Call (List (Entry PartyRequest))}
    {answer : r.Answer} {ks : Keyspace} (waits : w.rest i = .ask r next)
    (step : Step .custody w (w.advance i r answer ks (next answer)))
    (join : w.ledger.activity? i = some (.join request.party.leader request.matchmakingType
      request.metadata request.score))
    (absent : w.ledger.keyspace.record? PartyRequest p = none)
    (stored : (w.advance i r answer ks (next answer)).ledger.keyspace.record? PartyRequest p =
      some request) : JoinedBy i p request (w.advance i r answer ks (next answer))
  /-- The request stays. -/
  | later {w w' : World} (before : JoinedBy i p request w) (step : Step .custody w w')
    (stored : w'.ledger.keyspace.record? PartyRequest p = some request) : JoinedBy i p request w'

/-- The call is a join of the leader under the score of the request. -/
theorem JoinedBy.activity? {p : String} {request : PartyRequest}
    (joined : JoinedBy i p request w) : w.ledger.activity? i = some (.join request.party.leader
      request.matchmakingType request.metadata request.score) := by
  induction joined with
  | made waits step join absent stored => exact step.activity? join
  | later before step stored ih => exact step.activity? ih

/-- Every stored request of a party has been there since a call to join made it. -/
theorem Reachable.joinedBy (reach : Reachable .custody w) {p : String} {request : PartyRequest}
    (stored : w.ledger.keyspace.record? PartyRequest p = some request) :
    ∃ i, JoinedBy i p request w := by
  induction reach with
  | initial =>
    have absent : World.initial.ledger.keyspace.record? PartyRequest p = none :=
      Keyspace.record?_of_absent Std.ExtTreeMap.getElem?_empty
    rw [absent] at stored
    contradiction
  | @step w w' reach step ih =>
    have later (before : w.ledger.keyspace.record? PartyRequest p = some request) :
        ∃ i, JoinedBy i p request w' := by
      obtain ⟨i, joined⟩ := ih before
      exact ⟨i, joined.later step stored⟩
    cases step with
    | start j client activity new proper => exact later stored
    | advance j r next waits asks answer ks answered =>
      rcases reach.request_advance waits answered stored with before | ⟨absent, join⟩
      · exact later before
      · exact ⟨j, .made waits (.advance j r next waits asks answer ks answered) join absent stored⟩

end World

end Matchmaking
