import Matchmaking.Proofs.Queueing

/-!
# Popping a queue keeps custody

A call that pops a queue takes the parties off it.  From then on nobody else touches
their requests or their players.  Either all their players are set to matching and
the parties are handed out, or none is and the parties go back to where they waited.
Putting them back cannot fail, because a queue never holds another type.
-/

namespace Matchmaking

namespace Custody

variable {L L' : Ledger} {i j : Nat} {p queue : String} {popped : List ScoredMember}
  {state : MatchState} {requests : List (Entry PartyRequest)}

/-! ## What a call knows of the parties that it took -/

/-- A call took the popped parties, and their players' requests are in a state. -/
structure Popped (i : Nat) (queue : String) (popped : List ScoredMember) (state : MatchState)
    (L : Ledger) : Prop where
  custody : Custody L
  plain : Safe.Plain i L
  takes : ∀ p, L.Takes i p ↔ p ∈ popped.map (·.member)
  once : ∀ m ∈ popped, ∀ m' ∈ popped, m.member = m'.member → m = m'
  request : ∀ m ∈ popped, ∃ r, L.keyspace.record? PartyRequest m.member = some r ∧
    r.matchmakingType = queue ∧ r.score = m.score
  state : ∀ {p r x pr}, L.Takes i p → L.keyspace.record? PartyRequest p = some r →
    x ∈ r.party.members → L.keyspace.record? PlayerRequest x = some pr → pr.state = state

/-- The requests are those of the parties that a call took. -/
structure Gathered (i : Nat) (requests : List (Entry PartyRequest)) (L : Ledger) : Prop where
  stored : ∀ e ∈ requests, L.Takes i e.id ∧ L.keyspace.record? PartyRequest e.id = some e.record
  complete : ∀ {p}, L.Takes i p → p ∈ requests.map Entry.id

theorem takes_later (later : account.Later i L L') : L'.Takes i p ↔ L.Takes i p := by
  unfold Ledger.Takes
  rw [later.record]

/-- Nobody else touches the requests that a call took. -/
theorem Popped.later (h : Popped i queue popped state L) (later : account.Later i L L')
    (custody : Custody L') : Popped i queue popped state L' := by
  have same {p : String} (takes : L.Takes i p) : Undisturbed L L' p := later.rely p (.inl takes)
  refine ⟨custody, h.plain.later later, fun p => (takes_later later).trans (h.takes p), h.once,
    fun m hm => ?_, fun {p r x pr} takes stored listed player => ?_⟩
  · obtain ⟨r, stored, fits⟩ := h.request m hm
    have takes : L.Takes i m.member := (h.takes _).2 (List.mem_map_of_mem hm)
    exact ⟨r, (same takes).request.trans stored, fits⟩
  · have takes := (takes_later later).1 takes
    have stored := (same takes).request.symm.trans stored
    exact h.state takes stored listed (((same takes).players r stored x listed).symm.trans player)

theorem Gathered.later (h : Gathered i requests L) (later : account.Later i L L') :
    Gathered i requests L' := by
  refine ⟨fun e he => ?_, fun takes => h.complete ((takes_later later).1 takes)⟩
  obtain ⟨takes, stored⟩ := h.stored e he
  exact ⟨(takes_later later).2 takes, (later.rely e.id (.inl takes)).request.trans stored⟩

theorem Gathered.committed (h : Gathered i requests L) {ops : List Operation}
    (queues : ∀ op ∈ ops, op.Spares Key.queueNamespace)
    (spared : ∀ op ∈ ops, op.Spares (Record.kind PartyRequest)) :
    Gathered i requests (Safe.committed L i ops) := by
  refine ⟨fun e he => ?_, fun takes => h.complete ((Safe.takes_committed_of_spares queues).1 takes)⟩
  obtain ⟨takes, stored⟩ := h.stored e he
  exact ⟨(Safe.takes_committed_of_spares queues).2 takes,
    (Operation.record?_allEffects spared L.keyspace e.id).trans stored⟩

/-- A party that a call took is nowhere else. -/
theorem taken_only (h : Custody L) (takes : L.Takes i p) {place : Place} (there : L.At p place) :
    place = .taken i := (h.orderly p).one _ _ there takes

/-- A party that stands in a queue is handled by no call. -/
theorem not_handled_of_waiting (h : Custody L) (waiting : L.At p .waiting) :
    ¬ L.Handles j p := by
  rintro (takes | treats)
  · exact absurd (h.taken_only takes waiting) (by simp)
  · obtain ⟨client, held⟩ := h.treated_held treats
    exact absurd ((h.orderly p).one _ (.held client) waiting held) (by simp)

/-! ## Taking parties off a queue -/

/-- The members that a dequeue pops are those of its commit. -/
theorem received_dequeue {ks : Keyspace} {count : Nat}
    (answer : ks.answer (.popFirst (.queue queue) count) = .popped popped) (p : String) :
    p ∈ Operation.received ks [.dequeue queue count] ↔ p ∈ popped.map (·.member) := by
  have form : ks.answers (Operation.allCommands [.dequeue queue count]) = [.popped popped] :=
    congrArg (fun reply => [reply]) answer
  rw [Operation.received, form, List.flatMap_singleton]
  rfl

/-- An operation on queues leaves all records alone. -/
theorem record?_queueing {op : Operation} (α : Type) [Record α]
    (queueing : ∀ {space}, Key.Apart space Key.queueNamespace → op.Spares space) (y : String)
    (apart : Key.Apart (Record.kind α) Key.queueNamespace := by decide) :
    (Safe.committed L i [op]).keyspace.record? α y = L.keyspace.record? α y :=
  Operation.record?_allEffects (List.forall_mem_singleton.2 (queueing apart)) L.keyspace y

/-- A commit that moves parties between the queues and a call. -/
theorem move (h : Custody L) (plain : Safe.Plain i L) {op : Operation}
    (queueing : ∀ {space}, Key.Apart space Key.queueNamespace → op.Spares space)
    (queues : (Safe.committed L i [op]).keyspace.Queues) (Moved : String → Prop)
    (before after : Place) (loose : ∀ client, before ≠ .held client)
    (own : ∀ p, Moved p → ∀ j, j ≠ i → ¬ L.Handles j p) (was : ∀ p, Moved p → L.At p before)
    (there : ∀ p, Moved p → (Safe.committed L i [op]).At p after)
    (waits : ∀ p, Moved p → ∀ q score, (Safe.committed L i [op]).keyspace.Waits q p score →
      after = .waiting ∧ ∀ r, L.keyspace.record? PartyRequest p = some r →
        q = r.matchmakingType ∧ score = r.score)
    (takes : ∀ p, Moved p → ∀ j, (Safe.committed L i [op]).Takes j p → after = .taken j)
    (requested : ∀ p, Moved p → after = .waiting → ∀ r,
      L.keyspace.record? PartyRequest p = some r → ∀ x ∈ r.party.members, ∀ pr,
        L.keyspace.record? PlayerRequest x = some pr → pr.state = .requested)
    (others : ∀ p, ¬ Moved p →
      (∀ q score, (Safe.committed L i [op]).keyspace.Waits q p score ↔ L.keyspace.Waits q p score) ∧
        ∀ j, (Safe.committed L i [op]).Takes j p ↔ L.Takes j p) :
    account.Keeps i L (Safe.committed L i [op]) := by
  have request (p : String) := record?_queueing (L := L) (i := i) PartyRequest queueing p
  have party (p : String) := record?_queueing (L := L) (i := i) Party queueing p
  have player (x : String) := record?_queueing (L := L) (i := i) PlayerRequest queueing x
  have held : (Safe.committed L i [op]).held = L.held := plain.held_committed
  have unheld {p : String} (moved : Moved p) {client : Nat}
      (there : (Safe.committed L i [op]).At p (.held client)) : False := by
    unfold Ledger.At at there
    rw [held] at there
    exact loose client ((h.orderly p).one before (.held client) (was p moved) there)
  have legible := h.legible.allEffects (List.forall_mem_singleton.2 (queueing (by decide)))
  refine h.keeps Moved own queues legible (fun p moved => ?_) (fun p unmoved => ?_)
    (fun stored => h.playerId ((player _).symm.trans stored)) (fun stored ongoing => ?_)
    (fun _ => Safe.calls_committed) fun _ => Safe.not_treats_committed
  · obtain ⟨r, stored⟩ := h.stored before (was p moved)
    have kept := (h.orderly p).kept stored
    have only (place : Place) (there : (Safe.committed L i [op]).At p place) : place = after := by
      cases place with
      | waiting =>
        obtain ⟨q, score, there⟩ := there
        exact (waits p moved q score there).1.symm
      | taken j => exact (takes p moved j there).symm
      | held client => exact (unheld moved there).elim
    refine Orderly.of_kept ((request p).trans stored) ⟨kept.id, (party p).trans kept.party,
      kept.phase, ⟨after, there p moved⟩, fun there => (waits p moved _ _ there).2 r stored,
      fun {x} hx => ?_⟩ only
    obtain ⟨pr, follows⟩ := kept.player hx
    exact ⟨pr, (player x).trans follows.stored, follows.same, follows.ongoing,
      fun there => requested p moved (only .waiting there).symm r stored x hx pr follows.stored,
      fun _ there => (unheld moved there).elim⟩
  · obtain ⟨waits, takes⟩ := others p unmoved
    exact ⟨request p, fun P _ => by rw [party], waits, takes, fun client => by rw [held],
      fun r _ x _ => player x⟩
  · obtain ⟨p, r, there, listed⟩ := h.active ((player _).symm.trans stored) ongoing
    exact ⟨p, r, (request p).trans there, listed⟩

/-- A dequeue takes parties off a queue whose players' requests are requested. -/
theorem takeOff (h : Custody L) (idle : Idle i L) (queue : String) (count : Nat) :
    ∃ popped, L.keyspace.answer (.popFirst (.queue queue) count) = .popped popped ∧
      account.Keeps i L (Safe.committed L i [.dequeue queue count]) ∧
      Popped i queue popped .requested (Safe.committed L i [.dequeue queue count]) := by
  obtain ⟨popped, answer, waited, once, waits⟩ := Operation.waits_dequeue h.queues queue count
  have queueing {space : String} (apart : Key.Apart space Key.queueNamespace) :=
    Operation.spares_dequeue queue count apart
  have waits : ∀ q y score, (Safe.committed L i [.dequeue queue count]).keyspace.Waits q y score ↔
      L.keyspace.Waits q y score ∧ ¬ (q = queue ∧ y ∈ popped.map (·.member)) := waits
  have takes (p : String) : (Safe.committed L i [.dequeue queue count]).Takes i p ↔
      p ∈ popped.map (·.member) := by
    rw [idle.takes_committed, received_dequeue answer]
    exact and_iff_left List.not_mem_nil
  have others (j : Nat) (p : String) (other : j ≠ i) :
      (Safe.committed L i [.dequeue queue count]).Takes j p ↔ L.Takes j p :=
    Safe.takes_committed_of_ne other
  have was (p : String) (mem : p ∈ popped.map (·.member)) : L.At p .waiting := by
    obtain ⟨m, hm, rfl⟩ := List.mem_map.1 mem
    exact ⟨queue, m.score, waited m hm⟩
  have keeps : account.Keeps i L (Safe.committed L i [.dequeue queue count]) := by
    refine h.move idle.plain queueing
      (Operation.queues_dequeue h.queues queue count) (· ∈ popped.map (·.member))
      .waiting (.taken i) (by simp)
      (fun p mem j _ => h.not_handled_of_waiting (was p mem)) was (fun p mem => (takes p).2 mem)
      (fun p mem q score there => ?_) (fun p mem j there => ?_)
      (fun _ _ same => by contradiction) fun p unpopped => ⟨fun q score => ?_, fun j => ?_⟩
    · obtain ⟨there, unpopped⟩ := (waits q p score).1 there
      obtain ⟨m, hm, rfl⟩ := List.mem_map.1 mem
      obtain ⟨r, stored⟩ := h.stored .waiting (was m.member mem)
      have kept := (h.orderly m.member).kept stored
      have same := (kept.waits there).1.trans (kept.waits (waited m hm)).1.symm
      exact absurd ⟨same, mem⟩ unpopped
    · by_cases same : j = i
      · exact congrArg Place.taken same.symm
      · have there : L.At p (.taken j) := (others j p same).1 there
        exact absurd ((h.orderly p).one _ _ (was p mem) there) (by simp)
    · rw [waits]
      exact and_iff_left fun here => unpopped here.2
    · by_cases same : j = i
      · subst same
        exact iff_of_false (fun there => unpopped ((takes p).1 there)) (idle.untaken p)
      · exact others j p same
  refine ⟨popped, answer, keeps, keeps.inv, idle.plain.committed _, takes, once, fun m hm => ?_,
    fun {p r x pr} took stored listed there => ?_⟩
  · obtain ⟨r, stored⟩ := h.stored .waiting ⟨queue, m.score, waited m hm⟩
    have fits := ((h.orderly m.member).kept stored).waits (waited m hm)
    exact ⟨r, (record?_queueing PartyRequest queueing m.member).trans stored, fits.1.symm,
      fits.2.symm⟩
  · have waiting := was p ((takes p).1 took)
    have stored := (record?_queueing PartyRequest queueing p).symm.trans stored
    obtain ⟨pr', follows⟩ := ((h.orderly p).kept stored).player listed
    have there := (record?_queueing PlayerRequest queueing x).symm.trans there
    obtain rfl := Option.some.inj (follows.stored.symm.trans there)
    exact follows.waiting waiting

/-! ## Setting players to matching -/

/-- The operation that changes the requests of players. -/
def updating (players : List (Entry PlayerRequest)) (f : PlayerRequest → PlayerRequest) :
    Operation := .update (players.map fun e => (e.modify f).draft)

section

variable {ks : Keyspace} {players : List (Entry PlayerRequest)} {f : PlayerRequest → PlayerRequest}

theorem updating_spares {space : String}
    (apart : Key.Apart (Record.kind PlayerRequest) space := by decide) :
    (updating players f).Spares space := (Operation.draftsOf_map _ players).spares_update apart

theorem nobody_of_nothing (h : Operation.allCommands [updating players f] = []) : players = [] := by
  cases players with
  | nil => rfl
  | cons e players =>
    obtain ⟨text, written⟩ := Entry.draft_text (e := e.modify f) (PlayerRequest.readable _)
    have silent : Operation.writeCommand (e.modify f).draft = [] :=
      (List.append_eq_nil_iff.1 (List.append_eq_nil_iff.1 h).1).1
    rw [Operation.writeCommand, written] at silent
    contradiction

/-- Requests of players are updated only if they are still as they were read. -/
theorem record?_updating (loaded : ∀ e ∈ players, e.Loaded e.id)
    (needs : ∀ r ∈ (updating players f).requirements, r.Holds ks) (own : ∀ pr, (f pr).id = pr.id)
    (x : String) :
    ((updating players f).effect ks).record? PlayerRequest x =
      if x ∈ players.map Entry.id then (ks.record? PlayerRequest x).map f
      else ks.record? PlayerRequest x := by
  refine Keyspace.record?_updateAll own (fun pr => (f pr).readable) (fun e he => ?_) x
  have same : (Requirement.unchanged (e.modify f).draft).Holds ks :=
    Operation.holds_update needs _ (List.mem_map.2 ⟨e, he, rfl⟩)
  exact (loaded e he).unchanged (congrArg (Key.entry PlayerRequest) (own e.record)) rfl same

end

/-- Sets the players of the parties that a call took to matching. -/
theorem Popped.mark (h : Popped i queue popped state L) (agreed : Membership L.keyspace)
    {players : List (Entry PlayerRequest)} (loaded : ∀ e ∈ players, e.Loaded e.id)
    (listed : ∀ {x}, x ∈ players.map Entry.id ↔ ∃ p r, L.Takes i p ∧
      L.keyspace.record? PartyRequest p = some r ∧ x ∈ r.party.members)
    (needs : ∀ r ∈ Operation.allRequirements [updating players (·.withState .matching)],
      r.Holds L.keyspace) :
    account.Keeps i L (Safe.committed L i [updating players (·.withState .matching)]) ∧
      Popped i queue popped .matching
        (Safe.committed L i [updating players (·.withState .matching)]) := by
  have spares {space : String} (apart : Key.Apart (Record.kind PlayerRequest) space) :
      ∀ op ∈ [updating players (·.withState .matching)], op.Spares space :=
    List.forall_mem_singleton.2 (updating_spares apart)
  have records : ∀ x, Keyspace.record? PlayerRequest
      (Operation.allEffects L.keyspace [updating players (·.withState .matching)]) x = _ :=
    record?_updating loaded (Operation.holds_cons needs).1 fun _ => rfl
  -- From here on only what the operation does matters.
  clear needs
  generalize [updating players (·.withState .matching)] = ops at *
  have player (x : String) : (Safe.committed L i ops).keyspace.record? PlayerRequest x = _ :=
    records x
  have requests : ∀ op ∈ ops, op.Spares (Record.kind PartyRequest) := spares (by decide)
  have request (p : String) : (Safe.committed L i ops).keyspace.record? PartyRequest p = _ :=
    Operation.record?_allEffects requests L.keyspace p
  have party (p : String) : (Safe.committed L i ops).keyspace.record? Party p = _ :=
    Operation.record?_allEffects (spares (by decide)) L.keyspace p
  have queues : ∀ op ∈ ops, op.Spares Key.queueNamespace := spares (by decide)
  have takes (p : String) : (Safe.committed L i ops).Takes i p ↔ L.Takes i p :=
    Safe.takes_committed_of_spares queues
  have custody := h.custody
  have marked {x : String} (among : x ∈ players.map Entry.id) {pr : PlayerRequest}
      (stored : (Safe.committed L i ops).keyspace.record? PlayerRequest x = some pr) :
      ∃ old, L.keyspace.record? PlayerRequest x = some old ∧ pr = old.withState .matching := by
    rw [player, if_pos among] at stored
    obtain ⟨old, before, rfl⟩ := Option.map_eq_some_iff.1 stored
    exact ⟨old, before, rfl⟩
  have places (p : String) (place : Place) :
      (Safe.committed L i ops).At p place ↔ L.At p place := h.plain.at_committed queues place
  have keeps : account.Keeps i L (Safe.committed L i ops) := by
    refine custody.keeps (L.Takes i)
      (fun p takes j other handles => other (custody.handled_once handles (.inl takes)))
      (Operation.queues_allEffects queues custody.queues) (custody.legible.allEffects requests)
      (fun p takes => ?_) (fun p untaken => ?_)
      (fun {x pr} stored => ?_) (fun {x pr} stored ongoing => ?_) (fun _ => Safe.calls_committed)
      fun _ => Safe.not_treats_committed
    · obtain ⟨r, stored⟩ := custody.stored (.taken i) takes
      have kept := (custody.orderly p).kept stored
      have only (place : Place) (there : (Safe.committed L i ops).At p place) :
          place = .taken i := custody.taken_only takes ((places p place).1 there)
      refine Orderly.of_kept ((request p).trans stored) ⟨kept.id, (party p).trans kept.party,
        kept.phase, ⟨.taken i, (places p _).2 takes⟩, fun there => ?_, fun {x} hx => ?_⟩ only
      · exact absurd (only .waiting ⟨_, _, there⟩) (by simp)
      · obtain ⟨pr, follows⟩ := kept.player hx
        refine ⟨pr.withState .matching, ?_, ?_, rfl, fun there => ?_, fun _ _ => rfl⟩
        · rw [player, if_pos (listed.2 ⟨p, r, takes, stored, hx⟩), follows.stored]
          rfl
        · exact ⟨follows.same.type, follows.same.metadata, follows.same.noDeployment⟩
        · exact absurd (only .waiting there) (by simp)
    · refine h.plain.frame queues (request p) (fun P _ => iff_of_eq (congrArg (· = _) (party p)))
        fun r stored x hx => ?_
      refine (player x).trans (if_neg fun there => ?_)
      obtain ⟨p', r', takes, stored', hx'⟩ := listed.1 there
      exact untaken (custody.player_once agreed stored stored' hx hx' ▸ takes)
    · by_cases among : x ∈ players.map Entry.id
      · obtain ⟨old, before, rfl⟩ := marked among stored
        have own : old.id = x := custody.playerId before
        exact own
      · rw [player, if_neg among] at stored
        exact custody.playerId stored
    · by_cases among : x ∈ players.map Entry.id
      · obtain ⟨p, r, -, stored, hx⟩ := listed.1 among
        exact ⟨p, r, (request p).trans stored, hx⟩
      · rw [player, if_neg among] at stored
        obtain ⟨p, r, there, hx⟩ := custody.active stored ongoing
        exact ⟨p, r, (request p).trans there, hx⟩
  refine ⟨keeps, keeps.inv, h.plain.committed ops, fun p => (takes p).trans (h.takes p), h.once,
    fun m hm => ?_, fun {p r x pr} took stored hx there => ?_⟩
  · obtain ⟨r, stored, fits⟩ := h.request m hm
    exact ⟨r, (request m.member).trans stored, fits⟩
  · have among := listed.2 ⟨p, r, (takes p).1 took, (request p).symm.trans stored, hx⟩
    obtain ⟨old, -, rfl⟩ := marked among there
    rfl

/-! ## Putting parties back -/

theorem added_enqueueMembers (queue : String) (members : List ScoredMember) :
    Operation.added [.enqueueMembers queue members] = members.map (·.member) := by
  rw [Operation.added, Operation.allCommands, List.flatMap_singleton, Operation.commands]
  induction members with
  | nil => rfl
  | cons m members ih => exact congrArg (m.member :: ·) ih

/-- Puts the parties that a call took back to where they waited. -/
theorem Popped.restore (h : Popped i queue popped .requested L) :
    account.Keeps i L (Safe.committed L i [.enqueueMembers queue popped]) ∧
      ∀ p, ¬ (Safe.committed L i [.enqueueMembers queue popped]).Takes i p := by
  have custody := h.custody
  have waits (q y : String) (score : Score) :
      (Safe.committed L i [.enqueueMembers queue popped]).keyspace.Waits q y score ↔ _ :=
    Operation.waits_enqueueMembers custody.queues h.once q y score
  have untaken (p : String) : ¬ (Safe.committed L i [.enqueueMembers queue popped]).Takes i p := by
    rw [Safe.takes_committed, added_enqueueMembers,
      Operation.received_of_no_dequeue (by simp)]
    rintro ⟨c, record, mem, kept⟩
    exact kept ((h.takes p).1 ⟨c, record, mem.resolve_right List.not_mem_nil⟩)
  have others (j : Nat) (p : String) (other : j ≠ i) :
      (Safe.committed L i [.enqueueMembers queue popped]).Takes j p ↔ L.Takes j p :=
    Safe.takes_committed_of_ne other
  refine ⟨?_, untaken⟩
  refine custody.move h.plain (fun apart => Operation.spares_enqueueMembers queue popped apart)
    (Operation.queues_enqueueMembers custody.queues queue popped) (L.Takes i)
    (.taken i) .waiting (by simp)
    (fun p takes j other handles => other (custody.handled_once handles (.inl takes)))
    (fun _ takes => takes) (fun p takes => ?_)
    (fun p takes q score there => ⟨rfl, fun r stored => ?_⟩)
    (fun p takes j there => ?_)
    (fun p takes _ r stored x listed pr found => h.state takes stored listed found)
    fun p kept => ⟨fun q score => ?_, fun j => ?_⟩
  · have mem := (h.takes p).1 takes
    obtain ⟨m, hm, rfl⟩ := List.mem_map.1 mem
    refine ⟨queue, m.score, ?_⟩
    rw [waits, if_pos ⟨rfl, mem⟩]
    exact hm
  · obtain ⟨m, hm, rfl⟩ := List.mem_map.1 ((h.takes p).1 takes)
    obtain ⟨r', stored', type, score'⟩ := h.request m hm
    obtain rfl := Option.some.inj (stored.symm.trans stored')
    rw [waits] at there
    split at there
    next here =>
      have same := h.once _ there m hm rfl
      exact ⟨here.1.trans type.symm, (congrArg ScoredMember.score same).trans score'.symm⟩
    next =>
      have there : L.At m.member .waiting := ⟨q, score, there⟩
      exact absurd (custody.taken_only takes there) (by simp)
  · by_cases same : j = i
    · exact absurd (same ▸ there) (untaken p)
    · exact absurd (custody.handled_once (.inl ((others j p same).1 there)) (.inl takes)) same
  · rw [waits, if_neg fun here => kept ((h.takes p).2 here.2)]
  · by_cases same : j = i
    · subst same
      exact iff_of_false (untaken p) kept
    · exact others j p same

/-! ## The call -/

/-- What an attempt to set players to matching leads to. -/
def Attempted (i : Nat) (queue : String) (popped : List ScoredMember)
    (requests : List (Entry PartyRequest)) {ε α : Type} (result : Except ε α) (L : Ledger) : Prop :=
  Gathered i requests L ∧ match result with
    | .ok _ => Popped i queue popped .matching L
    | .error _ => Popped i queue popped .requested L

theorem transact_matching (h : Popped i queue popped .requested L) (gathered : Gathered i requests L)
    {players : List (Entry PlayerRequest)} (loaded : ∀ e ∈ players, e.Loaded e.id)
    (listed : ∀ {x}, x ∈ players.map Entry.id ↔ ∃ e ∈ requests, x ∈ e.record.party.members) :
    Safe account i (Attempted i queue popped requests)
      (Client.transact [updating players (·.withState .matching)]) L := by
  have among {L' : Ledger} (gathered : Gathered i requests L') {x : String} :
      x ∈ players.map Entry.id ↔ ∃ p r, L'.Takes i p ∧
        L'.keyspace.record? PartyRequest p = some r ∧ x ∈ r.party.members := by
    refine listed.trans ⟨?_, ?_⟩
    · rintro ⟨e, he, hx⟩
      obtain ⟨takes, stored⟩ := gathered.stored e he
      exact ⟨e.id, e.record, takes, stored, hx⟩
    · rintro ⟨p, r, takes, stored, hx⟩
      obtain ⟨e, he, rfl⟩ := List.mem_map.1 (gathered.complete takes)
      obtain rfl := Option.some.inj (stored.symm.trans (gathered.stored e he).2)
      exact ⟨e, he, hx⟩
  refine Safe.transact h.plain.settled (fun nothing _ L' later ready id => ?_)
    (fun L' later ready _ e => ?_) fun L' later ready needs => ?_
  · have h := h.later later ready.inv
    have gathered := gathered.later later
    have nobody : players = [] := nobody_of_nothing nothing
    refine ⟨gathered, h.custody, h.plain, h.takes, h.once, h.request, ?_⟩
    intro p r x pr takes stored hx there
    have mem := (among gathered).2 ⟨p, r, takes, stored, hx⟩
    rw [nobody] at mem
    exact absurd mem List.not_mem_nil
  · exact ⟨gathered.later later, h.later later ready.inv⟩
  · have h := h.later later ready.inv
    have gathered := gathered.later later
    obtain ⟨keeps, matching⟩ := h.mark ready.known loaded (among gathered) needs
    refine ⟨keeps, fun _ => ⟨gathered.committed ?_ ?_, matching⟩⟩
    · exact List.forall_mem_singleton.2 (updating_spares)
    · exact List.forall_mem_singleton.2 (updating_spares)

theorem mem_players {P : Party} {x : String} : x ∈ P.players ↔ x ∈ P.members :=
  Std.ExtTreeMap.mem_keys

/-- The request of a player of a stored party request is there. -/
theorem entry?_player (h : Custody L) {r : PartyRequest}
    (stored : L.keyspace.record? PartyRequest p = some r) {x : String} (hx : x ∈ r.party.members) :
    ∃ e, L.keyspace.entry? PlayerRequest x = some e ∧ e.Loaded x := by
  obtain ⟨pr, follows⟩ := ((h.orderly p).kept stored).player hx
  obtain ⟨e, found, rfl⟩ := Option.map_eq_some_iff.1 follows.stored
  exact ⟨e, found, Keyspace.loaded_of_entry? found (h.playerId follows.stored)⟩

theorem tryMatching_safe (h : Popped i queue popped .requested L)
    (gathered : Gathered i requests L) :
    Safe account i (fun result L' => match result with
      | .ok outcome => Attempted i queue popped requests outcome L'
      | .error e => Attempted i queue popped requests (Except.error e : Except _ Unit) L')
      (Gateway.tryMatching requests) L := by
  unfold Gateway.tryMatching
  rw [Gateway.playerRequests_eq]
  have read {x : String} : x ∈ requests.flatMap (·.record.party.players) ↔
      ∃ e ∈ requests, x ∈ e.record.party.members := by
    simp only [List.mem_flatMap, mem_players]
  refine Safe.bind (Safe.getAll h.plain.settled (fun L' later ready x hx => ?_)
    (fun L' players later inv loaded listed => ?_)
    fun L' e later ready => ⟨gathered.later later, h.later later ready.inv⟩)
  · obtain ⟨e, he, hx⟩ := read.1 hx
    exact ready.inv.entry?_player ((gathered.later later).stored e he).2 hx
  · exact Safe.attempt (transact_matching (h.later later (inv h.custody)) (gathered.later later)
      loaded fun {x} => (listed x).trans read)

theorem setMatching_safe (h : Popped i queue popped .requested L)
    (gathered : Gathered i requests L) (retries : Nat) :
    Safe account i (Attempted i queue popped requests) (Gateway.setMatching requests retries) L := by
  have ended (outcome : Except StoreError Commit) (L' : Ledger)
      (h : Attempted i queue popped requests outcome L') :
      Safe account i (Attempted i queue popped requests) (Gateway.endMatching outcome) L' := by
    cases outcome <;> exact h
  induction retries generalizing L with
  | zero =>
    unfold Gateway.setMatching
    refine Safe.bind ((tryMatching_safe h gathered).mono fun result L' attempted => ?_)
    cases result with
    | ok outcome => exact ended outcome L' attempted
    | error _ => exact attempted
  | succ retries ih =>
    unfold Gateway.setMatching
    refine Safe.bind ((tryMatching_safe h gathered).mono fun result L' attempted => ?_)
    cases result with
    | error _ => exact attempted
    | ok outcome =>
      cases outcome with
      | ok _ => exact attempted
      | error e =>
        dsimp only
        split
        · exact ih attempted.2 attempted.1
        · exact ended (.error e) L' attempted

theorem takeOver_safe (h : Popped i queue popped .requested L) :
    Safe account i (fun result L' => match result with
      | .ok requests => Attempted i queue popped requests result L'
      | .error _ => Popped i queue popped .requested L') (Gateway.takeOver popped) L := by
  unfold Gateway.takeOver
  refine Safe.bind (Safe.getStored (fun p found => ∃ e, found = some e ∧ e.id = p ∧
    L.keyspace.record? PartyRequest p = some e.record) h.plain.settled
    (fun L' later ready p mem => ?_) (fun L' requests later inv sound complete => ?_)
    fun L' e later ready => h.later later ready.inv)
  · have takes : L.Takes i p := (h.takes p).2 mem
    obtain ⟨r, stored⟩ := h.custody.stored (.taken i) takes
    have now := (later.rely p (.inl takes)).request.trans stored
    obtain ⟨e, found, rfl⟩ := Option.map_eq_some_iff.1 now
    exact ⟨e, found, ((h.custody.orderly p).kept stored).id, stored⟩
  · have gathered : Gathered i requests L := by
      refine ⟨fun e he => ?_, fun {p} takes => ?_⟩
      · obtain ⟨p, mem, e', same, rfl, stored⟩ := sound e he
        obtain rfl := Option.some.inj same
        exact ⟨(h.takes _).2 mem, stored⟩
      · rcases complete p ((h.takes p).1 takes) with ⟨e, none, -⟩ | ⟨e, he, e', same, own, -⟩
        · contradiction
        · obtain rfl := Option.some.inj same
          exact List.mem_map.2 ⟨e, he, own⟩
    refine Safe.bind ((setMatching_safe (h.later later (inv h.custody)) (gathered.later later)
      _).mono fun result L' attempted => ?_)
    cases result with
    | ok _ => exact attempted
    | error _ => exact attempted.2

theorem putBack_safe (h : Popped i queue popped .requested L) :
    Safe account i (Over i) (Gateway.putBack queue popped) L := by
  unfold Gateway.putBack
  refine Safe.bind (Safe.attempt (Safe.transact h.plain.settled
    (fun nothing _ L' later ready id => ?_) (fun L' later ready failed e => ?_)
    fun L' later ready _ => ?_))
  · have h := h.later later ready.inv
    rw [Operation.allCommands_enqueueMembers] at nothing
    have nobody : popped = [] := List.map_eq_nil_iff.1 nothing
    refine ⟨h.custody, fun p takes => ?_⟩
    have mem := (h.takes p).1 takes
    rw [nobody] at mem
    exact absurd mem List.not_mem_nil
  · obtain ⟨set, shown, -⟩ := ready.inv.queues queue
    refine absurd (Operation.firstMismatch_enqueueMembers shown popped)
      (failed (fun _ => List.forall_mem_singleton.2 trivial) ?_)
    exact fun r mem => absurd mem List.not_mem_nil
  · obtain ⟨keeps, untaken⟩ := (h.later later ready.inv).restore
    exact ⟨keeps, fun _ => ⟨keeps.inv, untaken⟩⟩

theorem pop_safe (idle : Idle i L) (custody : Custody L) (queue : String) (count : Nat) :
    Safe account i (account.close i) (Gateway.pop queue count) L := by
  have refused (e : GatewayError) {L' : Ledger} (custody : Custody L')
      (untaken : ∀ p, ¬ L'.Takes i p) : account.close i (.error e) L' :=
    close_over custody untaken fun requests ok => by contradiction
  unfold Gateway.pop
  split
  next => exact refused _ custody idle.untaken
  next =>
    refine Safe.bind (Safe.mapError (Safe.begin idle.plain.settled
      fun L₁ later ready id settings => ?_))
    have idle := idle.later later
    refine Safe.bind (Safe.mapError (Safe.commit [.dequeue queue count] idle.plain.settled
      (fun _ _ => refused _ ready.inv idle.untaken) ?_
      (fun L₂ later ready _ _ => refused _ ready.inv (idle.later later).untaken) ?_))
    · intro nothing
      contradiction
    · intro L₂ later ready _ _ _
      obtain ⟨popped, answer, keeps, taken⟩ := ready.inv.takeOff (idle.later later) queue count
      refine ⟨keeps, ?_⟩
      have same : Commit.dequeued
          ⟨id, L₂.keyspace.answers (Operation.allCommands [.dequeue queue count])⟩
          (Transaction.empty id settings).nextTicket = popped := by
        have replies : L₂.keyspace.answers (Operation.allCommands [.dequeue queue count]) =
            [.popped popped] := congrArg (fun reply => [reply]) answer
        rw [replies]
        exact if_pos rfl
      dsimp only [Except.mapError]
      rw [same]
      refine Safe.tryCatch ((takeOver_safe taken).mono fun result L₃ ended => ?_)
      cases result with
      | ok requests =>
        obtain ⟨gathered, matching⟩ := ended
        refine matching.custody.finish (fun p => ⟨fun takes => ?_, ?_⟩)
          fun p takes r stored x hx pr => matching.state takes stored hx
        · exact ⟨requests, rfl, gathered.complete takes⟩
        · rintro ⟨_, ⟨⟩, mem⟩
          obtain ⟨e, he, rfl⟩ := List.mem_map.1 mem
          exact (gathered.stored e he).1
      | error e =>
        refine Safe.bind ((putBack_safe ended).mono fun result L₄ ended => ?_)
        cases result <;> exact refused _ ended.custody ended.untaken

end Custody

end Matchmaking
