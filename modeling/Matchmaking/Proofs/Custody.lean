import Matchmaking.Proofs.Membership
import Matchmaking.Proofs.Places

/-!
# Custody of queued parties

A party with a stored request is in one place.  The records of the party and its
players go with the place (`Orderly`).  A player whose request is not over belongs to
such a party.  All of this is `Custody`.

A step of a call moves parties that no other call handles, and leaves a `Frame` of all
other parties.  So others can rely on the requests and players of the parties that
they handle (`Custody.keeps`).
-/

namespace Matchmaking

/-! ## The invariant -/

/-- A player's request goes with the request of the party. -/
structure PlayerRequest.GoesWith (pr : PlayerRequest) (r : PartyRequest) : Prop where
  type : pr.matchmakingType = r.matchmakingType
  metadata : pr.metadata = r.metadata
  noDeployment : pr.deploymentId = none ∧ pr.deploymentName = none

/-- The request of a stored party request's player is there and is as far as the
party. -/
structure Follows (L : Ledger) (p : String) (r : PartyRequest) (x : String) (pr : PlayerRequest) :
    Prop where
  stored : L.keyspace.record? PlayerRequest x = some pr
  same : pr.GoesWith r
  ongoing : pr.state.isTerminal = false
  waiting : L.At p .waiting → pr.state = .requested
  held : ∀ client, L.At p (.held client) → pr.state = .matching

/-- A stored party request goes with its party, its place and its players. -/
structure Kept (L : Ledger) (p : String) (r : PartyRequest) : Prop where
  id : r.id = p
  party : L.keyspace.record? Party p = some r.party
  phase : r.party.phase = .matchmaking
  place : ∃ place, L.At p place
  waits : ∀ {queue score}, L.keyspace.Waits queue p score →
    queue = r.matchmakingType ∧ score = r.score
  player : ∀ {x}, x ∈ r.party.members → ∃ pr, Follows L p r x pr

/-- A party is in one place if its request is stored, and in none otherwise. -/
structure Orderly (L : Ledger) (p : String) : Prop where
  one : ∀ place place', L.At p place → L.At p place' → place = place'
  kept : ∀ {r}, L.keyspace.record? PartyRequest p = some r → Kept L p r
  nowhere : L.keyspace.record? PartyRequest p = none → ∀ place, ¬ L.At p place
  offstage : L.keyspace.record? PartyRequest p = none →
    ∀ P, L.keyspace.record? Party p = some P → P.phase ≠ .matchmaking

/-- A party whose request goes with it is in order if it is in one place. -/
theorem Orderly.of_kept {L : Ledger} {p : String} {r : PartyRequest}
    (stored : L.keyspace.record? PartyRequest p = some r) (kept : Kept L p r) {place : Place}
    (only : ∀ place', L.At p place' → place' = place) : Orderly L p where
  one _ _ there there' := (only _ there).trans (only _ there').symm
  kept stored' := Option.some.inj (stored.symm.trans stored') ▸ kept
  nowhere absent := absurd (stored.symm.trans absent) (by simp)
  offstage absent := absurd (stored.symm.trans absent) (by simp)

/-- Every party is in order, and so are the players and the calls. -/
structure Custody (L : Ledger) : Prop where
  /-- Queues can be used. -/
  queues : L.keyspace.Queues
  /-- Requests of parties can be read. -/
  legible : L.keyspace.Legible PartyRequest
  /-- Every party is in order. -/
  orderly : ∀ p, Orderly L p
  /-- A player's request is stored under the id of the player. -/
  playerId : ∀ {x pr}, L.keyspace.record? PlayerRequest x = some pr → pr.id = x
  /-- A player whose request is not over belongs to a party with a request. -/
  active : ∀ {x pr}, L.keyspace.record? PlayerRequest x = some pr → pr.state.isTerminal = false →
    ∃ p r, L.keyspace.record? PartyRequest p = some r ∧ x ∈ r.party.members
  /-- Clients hold the parties whose assignments their calls work on. -/
  claims : ∀ {i c a}, L.calls i = some c → c.current? = some a → (c.client, a.party) ∈ L.held
  /-- No two calls work on assignments of one party. -/
  alone : ∀ {i j p}, L.Treats i p → L.Treats j p → i = j

namespace Custody

variable {L L' : Ledger} {i j : Nat} {p q x : String} {r r' : PartyRequest}

/-- A party that is somewhere has a request. -/
theorem stored (h : Custody L) (place : Place) (there : L.At p place) :
    ∃ r, L.keyspace.record? PartyRequest p = some r := by
  cases request : L.keyspace.record? PartyRequest p with
  | none => exact absurd there ((h.orderly p).nowhere request place)
  | some r => exact ⟨r, rfl⟩

theorem treated_held (h : Custody L) (treats : L.Treats i p) :
    ∃ client, L.At p (.held client) := by
  obtain ⟨c, a, record, current, rfl⟩ := treats
  exact ⟨c.client, h.claims record current⟩

/-- A party that a call handles has a request. -/
theorem handled_stored (h : Custody L) (handles : L.Handles i p) :
    ∃ r, L.keyspace.record? PartyRequest p = some r := by
  rcases handles with takes | treats
  · exact h.stored (.taken i) takes
  · obtain ⟨client, held⟩ := h.treated_held treats
    exact h.stored (.held client) held

/-- No two calls handle one party. -/
theorem handled_once (h : Custody L) (handles : L.Handles i p) (handles' : L.Handles j p) :
    i = j := by
  have one := (h.orderly p).one
  rcases handles with takes | treats <;> rcases handles' with takes' | treats'
  · have same : Place.taken i = .taken j := one _ _ takes takes'
    injection same
  · obtain ⟨client, held⟩ := h.treated_held treats'
    have same : Place.taken i = .held client := one _ _ takes held
    contradiction
  · obtain ⟨client, held⟩ := h.treated_held treats
    have same : Place.held client = .taken j := one _ _ held takes'
    contradiction
  · exact h.alone treats treats'

/-- Parties with requests share no player. -/
theorem player_once (h : Custody L) (agreed : Membership L.keyspace)
    (stored : L.keyspace.record? PartyRequest p = some r)
    (stored' : L.keyspace.record? PartyRequest q = some r') (listed : x ∈ r.party.members)
    (listed' : x ∈ r'.party.members) : p = q :=
  agreed.unique ((h.orderly p).kept stored).party ((h.orderly q).kept stored').party listed listed'

end Custody

/-! ## Frames -/

/-- Nothing about a party changes, unless it is off stage. -/
structure Frame (L L' : Ledger) (p : String) : Prop where
  request : L'.keyspace.record? PartyRequest p = L.keyspace.record? PartyRequest p
  party : ∀ P : Party, P.phase = .matchmaking →
    (L'.keyspace.record? Party p = some P ↔ L.keyspace.record? Party p = some P)
  waits : ∀ queue score, L'.keyspace.Waits queue p score ↔ L.keyspace.Waits queue p score
  takes : ∀ i, L'.Takes i p ↔ L.Takes i p
  holds : ∀ client, (client, p) ∈ L'.held ↔ (client, p) ∈ L.held
  players : ∀ r, L.keyspace.record? PartyRequest p = some r → ∀ x ∈ r.party.members,
    L'.keyspace.record? PlayerRequest x = L.keyspace.record? PlayerRequest x

/-- What a call relies on for a party that it handles. -/
structure Undisturbed (L L' : Ledger) (p : String) : Prop where
  request : L'.keyspace.record? PartyRequest p = L.keyspace.record? PartyRequest p
  players : ∀ r, L.keyspace.record? PartyRequest p = some r → ∀ x ∈ r.party.members,
    L'.keyspace.record? PlayerRequest x = L.keyspace.record? PlayerRequest x

theorem Undisturbed.trans {L L' L'' : Ledger} {p : String} (h : Undisturbed L L' p)
    (h' : Undisturbed L' L'' p) : Undisturbed L L'' p :=
  ⟨h'.request.trans h.request, fun r stored x hx =>
    (h'.players r (h.request.trans stored) x hx).trans (h.players r stored x hx)⟩

namespace Frame

variable {L L' : Ledger} {p : String}

theorem undisturbed (f : Frame L L' p) : Undisturbed L L' p := ⟨f.request, f.players⟩

theorem at_iff (f : Frame L L' p) (place : Place) : L'.At p place ↔ L.At p place := by
  cases place with
  | waiting => exact exists_congr fun queue => exists_congr fun score => f.waits queue score
  | taken i => exact f.takes i
  | held client => exact f.holds client

/-- A party stays in order where nothing about it changes. -/
theorem orderly (f : Frame L L' p) (h : Orderly L p) : Orderly L' p := by
  refine ⟨fun place place' there there' => ?_, fun {r} stored => ?_, fun absent place there => ?_,
    fun absent P stored matchmaking => ?_⟩
  · exact h.one place place' ((f.at_iff _).1 there) ((f.at_iff _).1 there')
  · have before := f.request.symm.trans stored
    have kept := h.kept before
    obtain ⟨place, there⟩ := kept.place
    refine ⟨kept.id, (f.party _ kept.phase).2 kept.party, kept.phase,
      ⟨place, (f.at_iff place).2 there⟩, fun waits => kept.waits ((f.waits _ _).1 waits),
      fun {x} hx => ?_⟩
    obtain ⟨pr, follows⟩ := kept.player hx
    exact ⟨pr, (f.players r before x hx).trans follows.stored, follows.same, follows.ongoing,
      fun there => follows.waiting ((f.at_iff _).1 there),
      fun client there => follows.held client ((f.at_iff _).1 there)⟩
  · exact h.nowhere (f.request.symm.trans absent) place ((f.at_iff place).1 there)
  · exact h.offstage (f.request.symm.trans absent) P ((f.party P matchmaking).1 stored) matchmaking

end Frame

namespace Safe

variable {L : Ledger} {i : Nat} {ops : List Operation} {p : String}

/-- A commit that leaves the queues and a party alone, of a call that does not assign. -/
theorem Plain.frame (plain : Plain i L) (h : ∀ op ∈ ops, op.Spares Key.queueNamespace)
    (request : (Operation.allEffects L.keyspace ops).record? PartyRequest p =
      L.keyspace.record? PartyRequest p)
    (party : ∀ P : Party, P.phase = .matchmaking →
      ((Operation.allEffects L.keyspace ops).record? Party p = some P ↔
        L.keyspace.record? Party p = some P))
    (players : ∀ r, L.keyspace.record? PartyRequest p = some r → ∀ x ∈ r.party.members,
      (Operation.allEffects L.keyspace ops).record? PlayerRequest x =
        L.keyspace.record? PlayerRequest x) : Frame L (Safe.committed L i ops) p where
  request := request
  party := party
  waits queue score := Operation.waits_allEffects h L.keyspace queue p score
  takes j := takes_committed_of_spares h
  holds client := by rw [plain.held_committed]
  players := players

end Safe

/-! ## Steps -/

namespace Custody

/-- The account of places.  A call relies on the requests and players of the parties
that it handles. -/
def account : Account where
  discipline := .custody
  Known L := Membership L.keyspace
  Inv := Custody
  Rely i L L' := ∀ p, L.Handles i p → Undisturbed L L' p
  refl _ _ _ _ := ⟨rfl, fun _ _ _ _ => rfl⟩
  trans same h h' p handles := (h p handles).trans (h' p ((Ledger.handles_congr same p).2 handles))

variable {L L' : Ledger} {i : Nat}

/-- A step of a call that moves parties which no other call handles. -/
theorem keeps (h : Custody L) (Moved : String → Prop)
    (own : ∀ p, Moved p → ∀ j, j ≠ i → ¬ L.Handles j p) (queues : L'.keyspace.Queues)
    (legible : L'.keyspace.Legible PartyRequest)
    (orderly : ∀ p, Moved p → Orderly L' p) (frame : ∀ p, ¬ Moved p → Frame L L' p)
    (playerId : ∀ {x pr}, L'.keyspace.record? PlayerRequest x = some pr → pr.id = x)
    (active : ∀ {x pr}, L'.keyspace.record? PlayerRequest x = some pr →
      pr.state.isTerminal = false →
        ∃ p r, L'.keyspace.record? PartyRequest p = some r ∧ x ∈ r.party.members)
    (others : ∀ j, j ≠ i → L'.calls j = L.calls j) (idle : ∀ p, ¬ L'.Treats i p) :
    account.Keeps i L L' := by
  have other {j : Nat} {p : String} (treats : L'.Treats j p) : j ≠ i :=
    fun same => idle p (same ▸ treats)
  have before {j : Nat} {p : String} (treats : L'.Treats j p) : L.Treats j p := by
    unfold Ledger.Treats at treats ⊢
    rw [others j (other treats)] at treats
    exact treats
  refine ⟨⟨queues, legible, fun p => ?_, playerId, active, fun {j c a} record current => ?_,
    fun treats treats' => h.alone (before treats) (before treats')⟩, fun j differs p handles => ?_⟩
  · by_cases moved : Moved p
    · exact orderly p moved
    · exact (frame p moved).orderly (h.orderly p)
  · have treats : L'.Treats j a.party := ⟨c, a, record, current, rfl⟩
    have unmoved : ¬ Moved a.party := fun moved =>
      own _ moved j (other treats) (.inr (before treats))
    rw [others j (other treats)] at record
    exact ((frame _ unmoved).holds c.client).2 (h.claims record current)
  · exact (frame p fun moved => own p moved j differs handles).undisturbed

/-! ### Calls that start, ask and return -/

theorem initial : Custody .initial := by
  have absent (α : Type) [Record α] (x : String) :
      Keyspace.record? α Ledger.initial.keyspace x = none :=
    Keyspace.record?_of_absent Std.ExtTreeMap.getElem?_empty
  have nowhere (p : String) (place : Place) : ¬ Ledger.initial.At p place := by
    cases place with
    | waiting =>
      rintro ⟨queue, score, set, shown, there⟩
      rw [Keyspace.sortedSetAt?, show Ledger.initial.keyspace[Key.queue queue]? = none from
        Std.ExtTreeMap.getElem?_empty] at shown
      obtain rfl := Option.some.inj shown
      rw [SortedSet.score?, SortedSet.empty, Std.ExtTreeMap.getElem?_empty] at there
      contradiction
    | taken i =>
      rintro ⟨c, record, -⟩
      contradiction
    | held client => exact List.not_mem_nil
  have idle (i : Nat) (p : String) : ¬ Ledger.initial.Treats i p := by
    rintro ⟨c, a, record, -⟩
    contradiction
  refine ⟨Keyspace.queues_empty, Keyspace.legible_empty, fun p => ⟨?_, ?_, ?_, ?_⟩, ?_, ?_, ?_, ?_⟩
  · exact fun place _ there => absurd there (nowhere p place)
  · exact fun {r} stored => by rw [absent] at stored; contradiction
  · exact fun _ => nowhere p
  · exact fun _ P stored => by rw [absent] at stored; contradiction
  · exact fun {x pr} stored => by rw [absent] at stored; contradiction
  · exact fun {x pr} stored => by rw [absent] at stored; contradiction
  · exact fun {i c a} record current => absurd ⟨c, a, record, current, rfl⟩ (idle i a.party)
  · exact fun {i j p} treats => absurd treats (idle i p)

theorem start (h : Custody L) (new : L.calls i = none) (client : Nat) (activity : Activity) :
    account.Keeps i L (L.start i client activity) := by
  have record : (L.start i client activity).calls i = some ⟨client, activity, 0, false, []⟩ :=
    Function.update_self i _ L.calls
  have others (j : Nat) (other : j ≠ i) : (L.start i client activity).calls j = L.calls j :=
    Function.update_of_ne other _ _
  refine h.keeps (fun _ => False) (fun _ => False.elim) h.queues h.legible (fun _ => False.elim)
    (fun p _ => ⟨rfl, fun _ _ => Iff.rfl, fun _ _ => Iff.rfl, fun j => ?_, fun _ => Iff.rfl,
      fun _ _ _ _ => rfl⟩) h.playerId h.active others ?_
  · by_cases same : j = i
    · subst same
      refine iff_of_false (L.not_takes_start p) ?_
      rintro ⟨c, record, -⟩
      rw [new] at record
      contradiction
    · unfold Ledger.Takes
      rw [others j same]
  · rintro p ⟨c, a, record', current, -⟩
    obtain rfl := Option.some.inj (record.symm.trans record')
    contradiction

theorem current?_ask (c : Progress) : c.ask.current? = c.next? := by
  unfold Progress.ask
  split
  next => rfl
  next none =>
    rw [Option.not_isSome_iff_eq_none] at none
    rw [Progress.current?, none]
    exact ite_self _

/-- The client of a call that may go on holds the party of the next assignment, and no
other call works on an assignment of the party. -/
theorem next_claimed (h : Custody L) (asks : account.discipline.Asks L i) {c : Progress}
    {a : Gateway.Assignment} (record : L.calls i = some c) (next : c.next? = some a) :
    (c.client, a.party) ∈ L.held ∧ ∀ j, L.Treats j a.party → j = i := by
  cases busy : c.busy with
  | false =>
    obtain ⟨held, alone⟩ := asks c a record busy next
    refine ⟨held, ?_⟩
    rintro j ⟨c', b, record', current, same⟩
    exact absurd same (alone j c' b record' current)
  | true =>
    have current : c.current? = some a := by rw [Progress.current?, busy, if_pos rfl, next]
    exact ⟨h.claims record current, fun j treats => h.alone treats ⟨c, a, record, current, rfl⟩⟩

/-- A call that begins with an assignment stays within its promise. -/
theorem ask (h : Custody L) (asks : account.discipline.Asks L i) :
    account.Keeps i L (L.ask i) := by
  have self : (L.ask i).calls i = (L.calls i).map .ask := L.calls_update_self i .ask
  have others (j : Nat) (other : j ≠ i) : (L.ask i).calls j = L.calls j :=
    L.calls_update_of_ne _ other
  have before {j : Nat} {c : Progress} {a : Gateway.Assignment}
      (record : (L.ask i).calls j = some c) (current : c.current? = some a) :
      (c.client, a.party) ∈ L.held ∧ ∀ k, L.Treats k a.party → k = j := by
    by_cases same : j = i
    · subst same
      obtain ⟨c, before, rfl⟩ := Option.map_eq_some_iff.1 (self.symm.trans record)
      rw [current?_ask] at current
      have client : c.ask.client = c.client := by
        unfold Progress.ask
        split <;> rfl
      rw [client]
      exact h.next_claimed asks before current
    · rw [others j same] at record
      exact ⟨h.claims record current, fun k treats => h.alone treats ⟨c, a, record, current, rfl⟩⟩
  have frame (p : String) : Frame L (L.ask i) p := by
    refine ⟨rfl, fun _ _ => Iff.rfl, fun _ _ => Iff.rfl, fun j => ?_, fun _ => Iff.rfl,
      fun _ _ _ _ => rfl⟩
    unfold Ledger.Takes
    by_cases same : j = i
    · subst same
      have taken (c : Progress) : c.ask.taken = c.taken := by
        unfold Progress.ask
        split <;> rfl
      rw [self]
      simp [taken]
    · rw [others j same]
  refine ⟨⟨h.queues, h.legible, fun p => (frame p).orderly (h.orderly p), h.playerId, h.active,
    fun record current => (before record current).1, ?_⟩, fun j _ p _ => (frame p).undisturbed⟩
  have old {j : Nat} {p : String} (other : j ≠ i) (treats : (L.ask i).Treats j p) :
      L.Treats j p := by
    unfold Ledger.Treats at treats
    rw [others j other] at treats
    exact treats
  rintro j k p ⟨c, a, record, current, rfl⟩ ⟨c', a', record', current', same⟩
  by_cases first : k = i
  · by_cases second : j = i
    · exact second.trans first.symm
    · have treats := old second ⟨c, a, record, current, rfl⟩
      exact (before record' current').2 j (same ▸ treats)
  · exact ((before record current).2 k (old first ⟨c', a', record', current', same⟩)).symm

theorem mem_held_finish {result : Except GatewayError (List (Entry PartyRequest))} {client : Nat}
    {p : String} : (client, p) ∈ (L.finish i result).held ↔
      (∃ c requests, L.calls i = some c ∧ result = .ok requests ∧ client = c.client ∧
        p ∈ requests.map Entry.id) ∨ (client, p) ∈ L.held := by
  unfold Ledger.finish
  rw [List.mem_append]
  refine or_congr_left ?_
  cases record : L.calls i with
  | none => simp
  | some c =>
    cases result with
    | error e => simp [Ledger.handed]
    | ok requests => simp [Ledger.handed, eq_comm, and_left_comm]

/-- A call that returns hands out what it took. -/
theorem finish (h : Custody L) {result : Except GatewayError (List (Entry PartyRequest))}
    (handed : ∀ p, L.Takes i p ↔ ∃ requests, result = .ok requests ∧ p ∈ requests.map Entry.id)
    (matching : ∀ p, L.Takes i p → ∀ r, L.keyspace.record? PartyRequest p = some r →
      ∀ x ∈ r.party.members, ∀ pr, L.keyspace.record? PlayerRequest x = some pr →
        pr.state = .matching) : account.Keeps i L (L.finish i result) := by
  have self : (L.finish i result).calls i = (L.calls i).map .finish := L.calls_update_self i .finish
  have others (j : Nat) (other : j ≠ i) : (L.finish i result).calls j = L.calls j :=
    L.calls_update_of_ne _ other
  have takes (j : Nat) (p : String) : (L.finish i result).Takes j p ↔ j ≠ i ∧ L.Takes j p :=
    L.takes_finish j p
  refine h.keeps (L.Takes i) (fun p takes j other handles => ?_) h.queues h.legible
    (fun p took => ?_) (fun p untaken => ?_) h.playerId h.active others ?_
  · exact other (h.handled_once handles (.inl takes))
  · obtain ⟨requests, ok, listed⟩ := (handed p).1 took
    obtain ⟨c, record, -⟩ := id took
    have was (place : Place) (there : L.At p place) : place = .taken i :=
      (h.orderly p).one _ _ there took
    have there : (L.finish i result).At p (.held c.client) :=
      mem_held_finish.2 (.inl ⟨c, requests, record, ok, rfl, listed⟩)
    have only (place : Place) (there : (L.finish i result).At p place) :
        place = .held c.client := by
      cases place with
      | waiting => exact absurd (was .waiting there) (by simp)
      | taken j =>
        obtain ⟨other, took'⟩ := (takes j p).1 there
        exact absurd (h.handled_once (.inl took') (.inl took)) other
      | held client =>
        rcases mem_held_finish.1 there with ⟨c', _, record', -, rfl, -⟩ | held
        · obtain rfl := Option.some.inj (record.symm.trans record')
          rfl
        · exact absurd (was (.held client) held) (by simp)
    obtain ⟨r, stored⟩ := h.stored (.taken i) took
    have kept := (h.orderly p).kept stored
    refine Orderly.of_kept stored ⟨kept.id, kept.party, kept.phase, ⟨_, there⟩, kept.waits,
      fun {x} hx => ?_⟩ only
    obtain ⟨pr, follows⟩ := kept.player hx
    exact ⟨pr, follows.stored, follows.same, follows.ongoing,
      fun there => absurd (only .waiting there) (by simp),
      fun client _ => matching p took r stored x hx pr follows.stored⟩
  · refine ⟨rfl, fun _ _ => Iff.rfl, fun _ _ => Iff.rfl, fun j => ?_, fun client => ?_,
      fun _ _ _ _ => rfl⟩
    · rw [takes]
      exact and_iff_right_of_imp fun took same => untaken (same ▸ took)
    · rw [mem_held_finish]
      refine or_iff_right ?_
      rintro ⟨c, requests, -, ok, -, listed⟩
      exact untaken ((handed p).2 ⟨requests, ok, listed⟩)
  · rintro p ⟨c, a, record, current, -⟩
    obtain ⟨c, -, rfl⟩ := Option.map_eq_some_iff.1 (self.symm.trans record)
    contradiction

end Custody

end Matchmaking
