import Matchmaking.Proofs.Popping

/-!
# Assigning a party keeps custody

A call works on an assignment only of a party that its client holds, and alone.  So
while it works nobody else touches the request of the party or its players, and what
it read is what it replaces.  The commit lets go of the party: the party waits again,
or its request is gone and the requests of its players are over.
-/

namespace Matchmaking

namespace Custody

variable {L L' : Ledger} {i j : Nat} {p : String} {a : Gateway.Assignment}
  {left : List Gateway.Assignment} {e : Entry PartyRequest}

/-! ## What assignments write -/

/-- What is written when a party is done. -/
def concluding (players : List (Entry PlayerRequest)) (f : PlayerRequest → PlayerRequest)
    (party : Entry Party) (phase : Phase) (e : Entry PartyRequest) : List Operation :=
  [updating players f, .update [(party.modify fun P => { P with phase := phase }).draft],
    .delete [e.draft]]

/-- What is written when a party goes back to its queue. -/
def requeuing (players : List (Entry PlayerRequest)) (e : Entry PartyRequest) : List Operation :=
  [updating players (·.withState .requested), .enqueue [e.queuePlace]]

section

variable {ks : Keyspace} {players : List (Entry PlayerRequest)} {f : PlayerRequest → PlayerRequest}

theorem spares_concluding (players : List (Entry PlayerRequest)) (f : PlayerRequest → PlayerRequest)
    (party : Entry Party) (phase : Phase) (e : Entry PartyRequest) :
    ∀ op ∈ concluding players f party phase e, op.Spares Key.queueNamespace := by
  intro op hop
  simp only [concluding, List.mem_cons, List.not_mem_nil, or_false] at hop
  rcases hop with rfl | rfl | rfl
  · exact updating_spares
  · exact (Operation.draftsOf_singleton _).spares_update
  · exact (Operation.draftsOf_singleton e).spares_delete

theorem legible_concluding (players : List (Entry PlayerRequest)) (f : PlayerRequest → PlayerRequest)
    (party : Entry Party) (phase : Phase) (e : Entry PartyRequest) (h : ks.Legible PartyRequest) :
    (Operation.allEffects ks (concluding players f party phase e)).Legible PartyRequest := by
  refine h.among (fun ks legible => ?_) [_, _] [] ?_
  · exact legible.erase e.id
  · exact List.forall_mem_cons.2 ⟨updating_spares,
      List.forall_mem_singleton.2 (Operation.draftsOf_singleton _).spares_update⟩

theorem record?_concluding (loaded : ∀ e ∈ players, e.Loaded e.id) (ids : ∀ pr, (f pr).id = pr.id)
    (own : e.id = p) {party : Entry Party} (ownParty : party.id = p) {phase : Phase}
    (needs : ∀ r ∈ Operation.allRequirements (concluding players f party phase e), r.Holds ks)
    (y : String) :
    (Operation.allEffects ks (concluding players f party phase e)).record? PartyRequest y =
      (if y = p then none else ks.record? PartyRequest y) ∧
    (Operation.allEffects ks (concluding players f party phase e)).record? Party y =
      (if y = p then some { party.record with phase := phase } else ks.record? Party y) ∧
    (Operation.allEffects ks (concluding players f party phase e)).record? PlayerRequest y =
      if y ∈ players.map Entry.id then (ks.record? PlayerRequest y).map f
      else ks.record? PlayerRequest y := by
  have update := Operation.draftsOf_singleton (party.modify fun P => { P with phase := phase })
  have delete := Operation.draftsOf_singleton e
  refine ⟨?_, ?_, ?_⟩
  · have key : e.draft.key = .entry PartyRequest p := congrArg (Key.entry PartyRequest) own
    have erased := Keyspace.record?_erase (α := PartyRequest) (Operation.allEffects ks
      [updating players f, .update [(party.modify fun P => { P with phase := phase }).draft]]) p y
    rw [← key] at erased
    refine erased.trans (if_congr Iff.rfl rfl (Operation.record?_allEffects ?_ ks y))
    exact List.forall_mem_cons.2 ⟨updating_spares, List.forall_mem_singleton.2 update.spares_update⟩
  · have writes := Entry.draft_writes (e := party.modify fun P => { P with phase := phase })
      (Party.readable _)
    have newId : (party.modify fun P => { P with phase := phase }).id = p := ownParty
    rw [newId] at writes
    exact writes.record?_among (fun _ => rfl) [_] [_] (List.forall_mem_cons.2
      ⟨updating_spares, List.forall_mem_singleton.2 delete.spares_delete⟩) ks y
  · refine (Operation.record?_among [] (List.forall_mem_cons.2 ⟨update.spares_update,
      List.forall_mem_singleton.2 delete.spares_delete⟩) ks y).trans ?_
    exact record?_updating loaded (Operation.holds_cons needs).1 ids y

theorem spares_requeuing (players : List (Entry PlayerRequest)) (e : Entry PartyRequest)
    {space : String} (player : Key.Apart (Record.kind PlayerRequest) space := by decide)
    (queue : Key.Apart space Key.queueNamespace := by decide) :
    ∀ op ∈ requeuing players e, op.Spares space :=
  List.forall_mem_cons.2 ⟨updating_spares player,
    List.forall_mem_singleton.2 (Operation.spares_enqueue _ queue)⟩

theorem record?_requeuing (loaded : ∀ e ∈ players, e.Loaded e.id)
    (needs : ∀ r ∈ Operation.allRequirements (requeuing players e), r.Holds ks) (y : String) :
    (Operation.allEffects ks (requeuing players e)).record? PartyRequest y =
      ks.record? PartyRequest y ∧
    (Operation.allEffects ks (requeuing players e)).record? Party y = ks.record? Party y ∧
    (Operation.allEffects ks (requeuing players e)).record? PlayerRequest y =
      if y ∈ players.map Entry.id then
        (ks.record? PlayerRequest y).map (·.withState .requested)
      else ks.record? PlayerRequest y := by
  refine ⟨?_, ?_, ?_⟩
  · exact Operation.record?_allEffects (spares_requeuing players e) ks y
  · exact Operation.record?_allEffects (spares_requeuing players e) ks y
  · refine (Operation.record?_among []
      (List.forall_mem_singleton.2 (Operation.spares_enqueue _)) ks y).trans ?_
    exact record?_updating loaded (Operation.holds_cons needs).1 (fun _ => rfl) y

theorem waits_requeuing (own : e.id = p) (queues : ks.Queues)
    (players : List (Entry PlayerRequest)) :
    (Operation.allEffects ks (requeuing players e)).Queues ∧
    ∀ q y score, (Operation.allEffects ks (requeuing players e)).Waits q y score ↔
      if q = e.record.matchmakingType ∧ y = p then score = e.record.score
      else ks.Waits q y score := by
  have updated : ∀ op ∈ [updating players (·.withState .requested)],
      op.Spares Key.queueNamespace := List.forall_mem_singleton.2 updating_spares
  have before := Operation.queues_allEffects updated queues
  refine ⟨before.editSet (fun _ agrees => agrees.insert _) e.queue, fun q y score => ?_⟩
  refine (Keyspace.waits_insert before e.queue _ q y score).trans ?_
  rw [Operation.waits_allEffects updated ks q y score, ← own]
  rfl

end

/-! ## What a call knows of its assignments -/

/-- A call has assignments left. -/
structure Assigning (i : Nat) (left : List Gateway.Assignment) (L : Ledger) : Prop where
  custody : Custody L
  call : ∃ c assignments, L.calls i = some c ∧ c.activity = .assign assignments ∧
    assignments.drop c.commits = left ∧ c.taken = []

/-- A call works on an assignment and has read the request of the party. -/
structure Working (i : Nat) (a : Gateway.Assignment) (left : List Gateway.Assignment)
    (e : Entry PartyRequest) (L : Ledger) : Prop where
  assigning : Assigning i (a :: left) L
  busy : ∀ c, L.calls i = some c → c.busy = true
  stored : L.keyspace.record? PartyRequest a.party = some e.record

theorem Assigning.later (h : Assigning i left L) (later : account.Later i L L')
    (custody : Custody L') : Assigning i left L' := by
  obtain ⟨c, assignments, record, facts⟩ := h.call
  exact ⟨custody, c, assignments, later.record.trans record, facts⟩

theorem Assigning.untaken (h : Assigning i left L) (p : String) : ¬ L.Takes i p := by
  obtain ⟨c, assignments, record, -, -, nothing⟩ := h.call
  rintro ⟨c', record', mem⟩
  obtain rfl := Option.some.inj (record.symm.trans record')
  rw [nothing] at mem
  exact absurd mem List.not_mem_nil

/-- The first assignment that is left comes next. -/
theorem Assigning.next?_eq (h : Assigning i left L) {c : Progress} (record : L.calls i = some c) :
    c.next? = left.head? := by
  obtain ⟨c', assignments, record', activity, rest, -⟩ := h.call
  obtain rfl := Option.some.inj (record.symm.trans record')
  rw [Progress.next?, activity, ← rest, List.head?_drop]

namespace Working

variable (h : Working i a left e L)

include h

theorem settled : Safe.Settled i L := by
  intro c record
  have busy := h.busy c record
  unfold Progress.ask
  split
  · rw [← busy]
  · rfl

theorem treats : L.Treats i a.party := by
  obtain ⟨c, -, record, -⟩ := h.assigning.call
  refine ⟨c, a, record, ?_, rfl⟩
  rw [Progress.current?, h.busy c record, if_pos rfl, h.assigning.next?_eq record]
  rfl

theorem later (later : account.Later i L L') (custody : Custody L') :
    Working i a left e L' :=
  ⟨h.assigning.later later custody, fun c record => h.busy c (later.record.symm.trans record),
    (later.rely a.party (.inr h.treats)).request.trans h.stored⟩

theorem held : ∃ client, L.At a.party (.held client) :=
  h.assigning.custody.treated_held h.treats

/-- The party is with the client only. -/
theorem only {place : Place} (there : L.At a.party place) : ∃ client, place = .held client := by
  obtain ⟨client, held⟩ := h.held
  exact ⟨client, (h.assigning.custody.orderly a.party).one _ _ there held⟩

/-- The commit lets go of the party and of no other. -/
theorem mem_held_committed {ops : List Operation} {client : Nat} {p : String} :
    (client, p) ∈ (Safe.committed L i ops).held ↔ (client, p) ∈ L.held ∧ p ≠ a.party := by
  obtain ⟨c, -, record, -⟩ := h.assigning.call
  have released : L.released? i = some (c.client, a.party) := by
    rw [Ledger.released?, record, Option.bind_some, h.assigning.next?_eq record]
    rfl
  refine List.mem_filter.trans (and_congr_right fun held => ?_)
  rw [released, decide_eq_true_eq, ne_eq, Option.some_inj, Prod.mk.injEq, not_and]
  constructor
  · rintro other rfl
    obtain ⟨c', b, record', current, same⟩ := h.treats
    obtain rfl := Option.some.inj (record.symm.trans record')
    have own : L.At a.party (.held c.client) := same ▸ h.assigning.custody.claims record current
    have here : Place.held client = .held c.client :=
      (h.assigning.custody.orderly a.party).one _ _ held own
    injection here with here
    exact other here rfl
  · exact fun other _ => other

theorem takes_committed {ops : List Operation}
    (noDequeue : ∀ queue count, .dequeue queue count ∉ ops) (j : Nat) (p : String) :
    (Safe.committed L i ops).Takes j p ↔ L.Takes j p := by
  by_cases same : j = i
  · subst same
    refine iff_of_false ?_ (h.assigning.untaken p)
    rw [Safe.takes_committed, Operation.received_of_no_dequeue noDequeue]
    rintro ⟨c, record, mem, -⟩
    exact h.assigning.untaken p ⟨c, record, mem.resolve_right List.not_mem_nil⟩
  · exact Safe.takes_committed_of_ne same

/-- After the commit the party can only stand in a queue. -/
theorem waiting_of_committed {ops : List Operation}
    (noDequeue : ∀ queue count, .dequeue queue count ∉ ops) {place : Place}
    (there : (Safe.committed L i ops).At a.party place) : place = .waiting := by
  cases place with
  | waiting => rfl
  | taken j =>
    have there : L.At a.party (.taken j) := (h.takes_committed noDequeue j _).1 there
    obtain ⟨client, same⟩ := h.only there
    contradiction
  | held client => exact absurd rfl (h.mem_held_committed.1 there).2

/-- After the commit the assignment is done. -/
theorem done {ops : List Operation} (custody : Custody (Safe.committed L i ops))
    (noDequeue : ∀ queue count, .dequeue queue count ∉ ops) :
    Assigning i left (Safe.committed L i ops) := by
  obtain ⟨c, assignments, record, activity, rest, nothing⟩ := h.assigning.call
  have record' : (Safe.committed L i ops).calls i = _ := L.calls_update_self i _
  rw [record] at record'
  refine ⟨custody, _, assignments, record', activity, ?_, ?_⟩
  · show assignments.drop (c.commits + 1) = left
    rw [← List.tail_drop, rest]
    rfl
  · have silent : (L.keyspace.answers (Operation.allCommands ops)).flatMap Progress.received = [] :=
      Operation.received_of_no_dequeue noDequeue L.keyspace
    show ((c.taken ++ _).filter _) = []
    rw [nothing, silent]
    rfl

/-! ## What the commit changes -/

variable {players : List (Entry PlayerRequest)} {f : PlayerRequest → PlayerRequest}
  {ops : List Operation} (agreed : Membership L.keyspace)
  (listed : ∀ {x}, x ∈ players.map Entry.id ↔ x ∈ e.record.party.members)

include agreed listed

/-- A commit that changes the party and its players only. -/
theorem keeps (player : ∀ x, (Safe.committed L i ops).keyspace.record? PlayerRequest x =
      if x ∈ players.map Entry.id then (L.keyspace.record? PlayerRequest x).map f
      else L.keyspace.record? PlayerRequest x)
    (ids : ∀ pr, (f pr).id = pr.id)
    (request : ∀ y, y ≠ a.party → (Safe.committed L i ops).keyspace.record? PartyRequest y =
      L.keyspace.record? PartyRequest y)
    (party : ∀ y, y ≠ a.party → (Safe.committed L i ops).keyspace.record? Party y =
      L.keyspace.record? Party y)
    (waits : ∀ queue y score, y ≠ a.party →
      ((Safe.committed L i ops).keyspace.Waits queue y score ↔ L.keyspace.Waits queue y score))
    (noDequeue : ∀ queue count, .dequeue queue count ∉ ops)
    (queues : (Safe.committed L i ops).keyspace.Queues)
    (legible : (Safe.committed L i ops).keyspace.Legible PartyRequest)
    (orderly : Orderly (Safe.committed L i ops) a.party)
    (active : ∀ x ∈ e.record.party.members, ∀ pr, L.keyspace.record? PlayerRequest x = some pr →
      (f pr).state.isTerminal = false → ∃ r,
        (Safe.committed L i ops).keyspace.record? PartyRequest a.party = some r ∧
          x ∈ r.party.members) : account.Keeps i L (Safe.committed L i ops) := by
  have custody := h.assigning.custody
  refine custody.keeps (· = a.party) ?_ queues legible ?_ (fun y other => ?_)
    (fun {x pr} stored => ?_) (fun {x pr} stored ongoing => ?_) (fun _ => Safe.calls_committed)
    fun _ => Safe.not_treats_committed
  · rintro _ rfl j other handles
    exact other (custody.handled_once handles (.inr h.treats))
  · rintro _ rfl
    exact orderly
  · refine ⟨request y other, fun P _ => by rw [party y other], fun queue score =>
      waits queue y score other, fun j => h.takes_committed noDequeue j y, fun client => ?_,
      fun r stored x hx => ?_⟩
    · rw [h.mem_held_committed]
      exact and_iff_left other
    · rw [player, if_neg]
      intro among
      exact other (custody.player_once agreed stored h.stored hx (listed.1 among))
  · rw [player] at stored
    split at stored
    next =>
      obtain ⟨old, before, rfl⟩ := Option.map_eq_some_iff.1 stored
      exact (ids old).trans (custody.playerId before)
    next => exact custody.playerId stored
  · rw [player] at stored
    split at stored
    next among =>
      obtain ⟨old, before, rfl⟩ := Option.map_eq_some_iff.1 stored
      obtain ⟨r, there, hx⟩ := active x (listed.1 among) old before ongoing
      exact ⟨a.party, r, there, hx⟩
    next other =>
      obtain ⟨q, r, there, hx⟩ := custody.active stored ongoing
      refine ⟨q, r, (request q ?_).trans there, hx⟩
      rintro rfl
      obtain rfl := Option.some.inj (h.stored.symm.trans there)
      exact other (listed.2 hx)

/-- The party is done: its request is gone, and those of its players are over. -/
theorem conclude (loaded : ∀ e ∈ players, e.Loaded e.id) (own : e.id = a.party)
    {party : Entry Party} (ownParty : party.id = a.party) (ids : ∀ pr, (f pr).id = pr.id)
    (ended : ∀ pr, (f pr).state.isTerminal = true) {phase : Phase} (offstage : phase ≠ .matchmaking)
    (needs : ∀ r ∈ Operation.allRequirements (concluding players f party phase e),
      r.Holds L.keyspace) :
    account.Keeps i L (Safe.committed L i (concluding players f party phase e)) := by
  have records := record?_concluding loaded ids own ownParty needs
  have queues := spares_concluding players f party phase e
  have legible := legible_concluding players f party phase e h.assigning.custody.legible
  clear needs
  -- From here on only what the operations do matters.
  generalize concluding players f party phase e = ops at *
  have request (y : String) : (Safe.committed L i ops).keyspace.record? PartyRequest y = _ :=
    (records y).1
  have parties (y : String) : (Safe.committed L i ops).keyspace.record? Party y = _ :=
    (records y).2.1
  have custody := h.assigning.custody
  have nowhere (place : Place) : ¬ (Safe.committed L i ops).At a.party place := by
    intro there
    obtain rfl := h.waiting_of_committed (Operation.no_dequeue_of_spares queues) there
    obtain ⟨queue, score, waits⟩ := there
    have waiting : L.At a.party .waiting :=
      ⟨queue, score, (Operation.waits_allEffects queues L.keyspace queue _ score).1 waits⟩
    obtain ⟨client, same⟩ := h.only waiting
    contradiction
  refine h.keeps agreed listed (fun x => (records x).2.2) ids
    (fun y other => (request y).trans (if_neg other))
    (fun y other => (parties y).trans (if_neg other))
    (fun queue y score _ => Operation.waits_allEffects queues L.keyspace queue y score)
    (Operation.no_dequeue_of_spares queues) (Operation.queues_allEffects queues custody.queues)
    legible
    ⟨fun place _ there => absurd there (nowhere place), fun {r} stored => ?_, fun _ => nowhere,
      fun _ P stored => ?_⟩ fun x _ pr _ ongoing => ?_
  · rw [request, if_pos rfl] at stored
    contradiction
  · rw [parties, if_pos rfl] at stored
    rw [← Option.some.inj stored]
    exact offstage
  · rw [ended] at ongoing
    contradiction

/-- The party waits again. -/
theorem requeue (loaded : ∀ e ∈ players, e.Loaded e.id) (own : e.id = a.party)
    (needs : ∀ r ∈ Operation.allRequirements (requeuing players e), r.Holds L.keyspace) :
    account.Keeps i L (Safe.committed L i (requeuing players e)) := by
  have custody := h.assigning.custody
  have kept := (custody.orderly a.party).kept h.stored
  have records := record?_requeuing loaded needs
  have legible := custody.legible.allEffects (spares_requeuing players e)
  obtain ⟨queues, waits⟩ := waits_requeuing own custody.queues players
  have noDequeue : ∀ queue count, .dequeue queue count ∉ requeuing players e := by
    simp [requeuing, updating]
  clear needs
  -- From here on only what the operations do matters.
  generalize requeuing players e = ops at *
  have request (y : String) : (Safe.committed L i ops).keyspace.record? PartyRequest y = _ :=
    (records y).1
  have party (y : String) : (Safe.committed L i ops).keyspace.record? Party y = _ :=
    (records y).2.1
  have player (x : String) : (Safe.committed L i ops).keyspace.record? PlayerRequest x = _ :=
    (records x).2.2
  have only (place : Place) (there : (Safe.committed L i ops).At a.party place) :
      place = .waiting := h.waiting_of_committed noDequeue there
  refine h.keeps agreed listed player (fun _ => rfl) (fun y _ => request y) (fun y _ => party y)
    (fun queue y score other => (waits queue y score).trans (iff_of_eq (if_neg (other ·.2))))
    noDequeue queues legible ?_ fun x hx _ _ _ => ⟨e.record, (request a.party).trans h.stored, hx⟩
  refine Orderly.of_kept ((request a.party).trans h.stored) ⟨kept.id,
    (party a.party).trans kept.party, kept.phase,
    ⟨.waiting, e.record.matchmakingType, e.record.score, (waits _ _ _).2 ?_⟩,
    fun {q s} there => ?_, fun {x} hx => ?_⟩ only
  · rw [if_pos ⟨rfl, rfl⟩]
  · have there := (waits q a.party s).1 there
    split at there
    next here => exact ⟨here.1, there⟩
    next =>
      have waiting : L.At a.party .waiting := ⟨q, s, there⟩
      obtain ⟨client, same⟩ := h.only waiting
      contradiction
  · obtain ⟨pr, follows⟩ := kept.player hx
    refine ⟨pr.withState .requested, (player x).trans ?_, ?_, rfl, fun _ => rfl,
      fun client there => ?_⟩
    · rw [if_pos (listed.2 hx), follows.stored]
      rfl
    · exact ⟨follows.same.type, follows.same.metadata, follows.same.noDeployment⟩
    · exact absurd (only (.held client) there) (by simp)

end Working

/-! ## The call -/

/-- A call that makes its first request for an assignment works on it. -/
theorem Assigning.ask (h : Assigning i (a :: left) L) (custody : Custody (L.ask i)) :
    Assigning i (a :: left) (L.ask i) ∧ ∀ c, (L.ask i).calls i = some c → c.busy = true := by
  obtain ⟨c, assignments, record, activity, rest, nothing⟩ := h.call
  have record' : (L.ask i).calls i = _ := L.calls_update_self i .ask
  have ask : c.ask = { c with busy := true } := by
    rw [Progress.ask, h.next?_eq record]
    rfl
  rw [record, Option.map_some, ask] at record'
  refine ⟨⟨custody, _, assignments, record', activity, rest, nothing⟩, fun c' again => ?_⟩
  rw [← Option.some.inj (record'.symm.trans again)]

/-- What a call ends its work on an assignment with. -/
def Assigned {α : Type} (i : Nat) (left : List Gateway.Assignment)
    (result : Except GatewayError α) (L : Ledger) : Prop :=
  match result with
  | .ok _ => Assigning i left L
  | .error _ => Over i result L

theorem Working.commit_safe (h : Working i a left e L) {ops : List Operation} {name : String}
    {onExists : String → GatewayError} (something : Operation.allCommands ops ≠ [])
    (noDequeue : ∀ queue count, .dequeue queue count ∉ ops)
    (kept : ∀ L', Working i a left e L' → Membership L'.keyspace →
      (∀ r ∈ Operation.allRequirements ops, r.Holds L'.keyspace) →
        account.Keeps i L' (Safe.committed L' i ops)) :
    Safe account i (Assigned i left) (Call.commit name onExists (Client.transact ops)) L := by
  refine Safe.mapError (Safe.transact h.settled (fun nothing => absurd nothing something)
    (fun L' later ready _ e => ?_) fun L' later ready needs => ?_)
  · have h := h.later later ready.inv
    exact ⟨ready.inv, h.assigning.untaken⟩
  · have h := h.later later ready.inv
    have keeps := kept L' h ready.known needs
    exact ⟨keeps, fun _ => h.done keeps.inv noDequeue⟩

theorem commands_decision (decision : Gateway.Decision) (request : Entry PartyRequest)
    (party : Entry Party) (players : List (Entry PlayerRequest)) :
    Operation.allCommands (decision.operations request party players) ≠ [] := by
  cases decision <;> simp [Gateway.Decision.operations, Operation.allCommands, Operation.commands]

theorem no_dequeue_decision (decision : Gateway.Decision) (request : Entry PartyRequest)
    (party : Entry Party) (players : List (Entry PlayerRequest)) (queue : String) (count : Nat) :
    .dequeue queue count ∉ decision.operations request party players := by
  cases decision <;> simp [Gateway.Decision.operations]

theorem assignOne_safe (h : Assigning i (a :: left) L) :
    Safe account i (Assigned i left) (Gateway.assignOne a) L := by
  unfold Gateway.assignOne
  refine Safe.bind (Safe.getOr_asking fun L₁ later ready => ?_)
  have h := h.later later ready.inv
  have keeps := ready.inv.ask ready.asks
  obtain ⟨assigning, busy⟩ := h.ask keeps.inv
  refine ⟨keeps, fun request found => ?_, fun _ => ⟨keeps.inv, assigning.untaken⟩⟩
  have stored := Keyspace.record?_of_entry? found
  have own : request.id = a.party := ((ready.inv.orderly a.party).kept stored).id
  have h : Working i a left request (L₁.ask i) := ⟨assigning, busy, stored⟩
  refine Safe.bind (Safe.getOr h.settled (fun L₂ party later ready found => ?_)
    fun L₂ _ later ready => ⟨ready.inv, (h.later later ready.inv).assigning.untaken⟩)
  have h := h.later later ready.inv
  have ownParty : party.id = a.party := ready.known.partyId (Keyspace.record?_of_entry? found)
  refine Safe.bind (Safe.getAll h.settled (fun L₃ later ready x hx => ?_)
    (fun L₃ players later inv loaded listed => ?_)
    fun L₃ _ later ready => ⟨ready.inv, (h.later later ready.inv).assigning.untaken⟩)
  · exact ready.inv.entry?_player (h.later later ready.inv).stored (mem_players.1 hx)
  · have h := h.later later (inv h.assigning.custody)
    have listed {x : String} : x ∈ players.map Entry.id ↔ x ∈ request.record.party.members :=
      (listed x).trans mem_players
    have commit : Safe account i (Assigned i left) (Call.commit "assign_deployments" .alreadyExists
        (Client.transact (a.decision.operations request party players))) L₃ := by
      refine h.commit_safe (commands_decision a.decision request party players)
        (no_dequeue_decision a.decision request party players) fun L' h agreed needs => ?_
      cases decision : a.decision with
      | matched deployment name =>
        rw [decision] at needs
        exact h.conclude agreed listed loaded own ownParty (f := (·.assign deployment name))
          (fun _ => rfl) (fun _ => rfl) (by decide) needs
      | requeued =>
        rw [decision] at needs
        exact h.requeue agreed listed loaded own needs
      | error =>
        rw [decision] at needs
        exact h.conclude agreed listed loaded own ownParty (f := (·.withState .error))
          (fun _ => rfl) (fun _ => rfl) (by decide) needs
    refine Safe.bind (commit.mono fun result L₄ assigned => ?_)
    cases result with
    | ok _ => exact assigned
    | error _ => exact ⟨assigned.custody, assigned.untaken⟩

theorem assign_safe (h : Assigning i left L) :
    Safe account i (Over i) (Gateway.assign left) L := by
  induction left generalizing L with
  | nil => exact ⟨h.custody, h.untaken⟩
  | cons a left ih =>
    refine Safe.bind ((assignOne_safe h).mono fun result L' done => ?_)
    cases result with
    | ok _ => exact ih done
    | error _ => exact ⟨done.custody, done.untaken⟩

end Custody

end Matchmaking
