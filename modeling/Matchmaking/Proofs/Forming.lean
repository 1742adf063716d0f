import Matchmaking.Proofs.Custody

/-!
# Forming parties keeps custody

Creating, joining and leaving a party touch parties that are forming, and neither
requests nor queues.  So no party that waits for a match is affected.
-/

namespace Matchmaking

namespace Custody

variable {L : Ledger} {i : Nat}

/-! ## Calls that take nothing -/

/-- A call is under way, does not assign and has taken no party. -/
structure Idle (i : Nat) (L : Ledger) : Prop where
  plain : Safe.Plain i L
  untaken : ∀ p, ¬ L.Takes i p

theorem Idle.later {L' : Ledger} (h : Idle i L) (later : account.Later i L L') : Idle i L' := by
  refine ⟨h.plain.later later, fun p => ?_⟩
  unfold Ledger.Takes
  rw [later.record]
  exact h.untaken p

theorem idle_start {client : Nat} {activity : Activity}
    (other : ∀ assignments, activity ≠ .assign assignments) :
    Idle i (L.start i client activity) :=
  ⟨Safe.plain_start other, L.not_takes_start⟩

/-- A call takes what it pops and does not put back. -/
theorem Idle.takes_committed (h : Idle i L) {ops : List Operation} {p : String} :
    (Safe.committed L i ops).Takes i p ↔
      p ∈ Operation.received L.keyspace ops ∧ p ∉ Operation.added ops := by
  rw [Safe.takes_committed]
  constructor
  · rintro ⟨c, record, mem | mem, kept⟩
    · exact absurd ⟨c, record, mem⟩ (h.untaken p)
    · exact ⟨mem, kept⟩
  · rintro ⟨mem, kept⟩
    obtain ⟨c, record, -⟩ := h.plain
    exact ⟨c, record, .inr mem, kept⟩

/-- A commit without a dequeue takes nothing. -/
theorem Idle.untaken_committed (h : Idle i L) {ops : List Operation}
    (noDequeue : ∀ queue count, .dequeue queue count ∉ ops) (p : String) :
    ¬ (Safe.committed L i ops).Takes i p := by
  rw [h.takes_committed, Operation.received_of_no_dequeue noDequeue]
  exact fun taken => List.not_mem_nil taken.1

/-- What a call ends with that hands nothing out. -/
structure Over {ε α : Type} (i : Nat) (_ : Except ε α) (L : Ledger) : Prop where
  custody : Custody L
  untaken : ∀ p, ¬ L.Takes i p

/-- A call that took nothing and hands nothing out can return. -/
theorem close_over {result : Except GatewayError (List (Entry PartyRequest))} (custody : Custody L)
    (untaken : ∀ p, ¬ L.Takes i p) (nothing : ∀ requests, result = .ok requests → requests = []) :
    account.close i result L := by
  refine custody.finish (fun p => iff_of_false (untaken p) ?_)
    fun p takes => absurd takes (untaken p)
  rintro ⟨requests, ok, listed⟩
  rw [nothing requests ok] at listed
  exact absurd listed List.not_mem_nil

/-- A call that hands nothing out returns. -/
theorem closing {α : Type} {p : Call α} (h : Safe account i (Over i) p L) :
    Safe account i (account.close i) (p >>= fun _ => pure []) L := by
  refine Safe.bind (h.mono fun result L' ended => ?_)
  cases result with
  | ok a => exact close_over ended.custody ended.untaken fun requests ok => (Except.ok.inj ok).symm
  | error e => exact close_over ended.custody ended.untaken fun requests ok => by contradiction

/-- A call goes on with nothing. -/
theorem after_over {α β : Type} {p : Call α} {b : β} (h : Safe account i (Over i) p L) :
    Safe account i (Over i) (p >>= fun _ => pure b) L := by
  refine Safe.bind (h.mono fun result L' ended => ?_)
  cases result <;> exact ⟨ended.custody, ended.untaken⟩

/-- A commit that keeps the account and takes nothing. -/
theorem commit_over {ops : List Operation} {name : String} {onExists : String → GatewayError}
    (idle : Idle i L) (noDequeue : ∀ queue count, .dequeue queue count ∉ ops)
    (kept : ∀ L', account.Later i L L' → account.Ready i L' → Idle i L' →
      (∀ r ∈ Operation.allRequirements ops, r.Holds L'.keyspace) →
        account.Keeps i L' (Safe.committed L' i ops)) :
    Safe account i (Over i) (Call.commit name onExists (Client.transact ops)) L := by
  refine Safe.mapError (Safe.transact idle.plain.settled ?_ ?_ ?_)
  · exact fun _ _ L' later ready _ => ⟨ready.inv, (idle.later later).untaken⟩
  · exact fun L' later ready _ _ => ⟨ready.inv, (idle.later later).untaken⟩
  · intro L' later ready holds
    have idle := idle.later later
    have keeps := kept L' later ready idle holds
    exact ⟨keeps, fun _ => ⟨keeps.inv, idle.untaken_committed noDequeue⟩⟩

/-! ## Commits that touch parties only -/

/-- An operation that writes parties and members only. -/
def Backstage (op : Operation) : Prop :=
  ∀ key ∈ op.keys, ∃ id, key = .entry Party id ∨ key = .entry Member id

theorem Backstage.spares {op : Operation} (h : Backstage op) {space : String}
    (party : Key.Apart (Record.kind Party) space := by decide)
    (member : Key.Apart (Record.kind Member) space := by decide) : op.Spares space := by
  intro id mem
  obtain ⟨id', same | same⟩ := h _ mem
  · exact Key.compose_ne party id' id same.symm
  · exact Key.compose_ne member id' id same.symm

theorem backstage_party {op : Operation} {id : String} (keys : op.keys = [.entry Party id]) :
    Backstage op := fun _ mem => ⟨id, .inl (List.mem_singleton.1 (keys ▸ mem))⟩

theorem backstage_member {op : Operation} {id : String} (keys : op.keys = [.entry Member id]) :
    Backstage op := fun _ mem => ⟨id, .inr (List.mem_singleton.1 (keys ▸ mem))⟩

/-- A commit that touches parties only which are and stay out of matchmaking. -/
theorem backstage (h : Custody L) (plain : Safe.Plain i L) {ops : List Operation}
    (apart : ∀ op ∈ ops, Backstage op)
    (party : ∀ p (P : Party), P.phase = .matchmaking →
      ((Operation.allEffects L.keyspace ops).record? Party p = some P ↔
        L.keyspace.record? Party p = some P)) :
    account.Keeps i L (Safe.committed L i ops) := by
  have queues : ∀ op ∈ ops, op.Spares Key.queueNamespace := fun op hop =>
    (apart op hop).spares
  have requests : ∀ op ∈ ops, op.Spares (Record.kind PartyRequest) := fun op hop =>
    (apart op hop).spares
  have request : ∀ p, (Operation.allEffects L.keyspace ops).record? PartyRequest p = _ :=
    Operation.record?_allEffects requests L.keyspace
  have player : ∀ x, (Operation.allEffects L.keyspace ops).record? PlayerRequest x = _ :=
    Operation.record?_allEffects
      (fun op hop => (apart op hop).spares) L.keyspace
  refine h.keeps (fun _ => False) (fun _ => False.elim)
    (Operation.queues_allEffects queues h.queues) (h.legible.allEffects requests)
    (fun _ => False.elim)
    (fun p _ => plain.frame queues (request p) (party p) fun _ _ x _ => player x) ?_ ?_
    (fun _ => Safe.calls_committed) fun _ => Safe.not_treats_committed
  · intro x pr stored
    exact h.playerId ((player x).symm.trans stored)
  · intro x pr stored ongoing
    obtain ⟨p, r, there, listed⟩ := h.active ((player x).symm.trans stored) ongoing
    exact ⟨p, r, (request p).trans there, listed⟩

/-- Rewriting one party that is and stays out of matchmaking. -/
theorem offstage {ks ks' : Keyspace} (p : String) (after : Option Party)
    (party : ∀ y, ks'.record? Party y = if y = p then after else ks.record? Party y)
    (old : ∀ P, ks.record? Party p = some P → P.phase = .forming)
    (new : ∀ P, after = some P → P.phase = .forming) (y : String) (P : Party)
    (matchmaking : P.phase = .matchmaking) :
    ks'.record? Party y = some P ↔ ks.record? Party y = some P := by
  rw [party]
  split
  next here =>
    subst here
    refine iff_of_false (fun stored => ?_) fun stored => ?_
    · have forming := new P stored
      rw [matchmaking] at forming
      contradiction
    · have forming := old P stored
      rw [matchmaking] at forming
      contradiction
  next => rfl

/-- A commit that touches parties only, of a call that takes nothing. -/
theorem backstage_over {ops : List Operation} {name : String} {onExists : String → GatewayError}
    (idle : Idle i L) (apart : ∀ op ∈ ops, Backstage op)
    (party : ∀ ks : Keyspace, (∀ r ∈ Operation.allRequirements ops, r.Holds ks) →
      ∀ p (P : Party), P.phase = .matchmaking →
        ((Operation.allEffects ks ops).record? Party p = some P ↔
          ks.record? Party p = some P)) :
    Safe account i (Over i) (Call.commit name onExists (Client.transact ops)) L := by
  refine commit_over idle (Operation.no_dequeue_of_spares fun op hop => ?_)
    fun L' _ ready idle needs => ready.inv.backstage idle.plain apart (party L'.keyspace needs)
  exact (apart op hop).spares

/-! ## Calls -/

theorem create_safe (idle : Idle i L) (custody : Custody L) (id leader token : String)
    (min max : UInt32) : Safe account i (Over i) (Parties.create id leader token min max) L := by
  unfold Parties.create
  refine Safe.bind ?_
  cases created : Party.create id leader token min max with
  | error e => exact ⟨custody, idle.untaken⟩
  | ok P =>
    obtain ⟨-, rfl, forming, -⟩ := Party.create_spec created
    have party := Entry.draft_writes (e := .fresh P) P.readable
    have member := Entry.draft_writes (e := .fresh (⟨leader, P.id⟩ : Member)) (Member.readable _)
    refine after_over (backstage_over idle ?_ fun ks needs => offstage P.id (some P) ?_ ?_ ?_)
    · exact List.forall_mem_cons.2
        ⟨backstage_party rfl, List.forall_mem_singleton.2 (backstage_member rfl)⟩
    · exact fun y => (member.record?_other _ y).trans (party.record? _ y)
    · intro Q stored
      have absent : ks.record? Party P.id = none := Keyspace.record?_of_absent
        (Operation.holds_create (Operation.holds_cons needs).1 _ List.mem_cons_self)
      rw [absent] at stored
      contradiction
    · rintro _ ⟨⟩
      exact forming

theorem join_safe (idle : Idle i L) (player token party : String) :
    Safe account i (Over i) (Parties.join player token party) L := by
  unfold Parties.join
  refine Safe.bind (Safe.getOr idle.plain.settled (fun L₁ e later ready stored => ?_)
    fun L₁ _ later ready => ⟨ready.inv, (idle.later later).untaken⟩)
  have idle := idle.later later
  have loaded : e.Loaded party :=
    Keyspace.loaded_of_entry? stored (ready.known.partyId (Keyspace.record?_of_entry? stored))
  refine Safe.bind ?_
  cases accepted : Parties.accept e.record player token with
  | error _ => exact ⟨ready.inv, idle.untaken⟩
  | ok P =>
    obtain ⟨forming, added⟩ := Parties.accept_spec accepted
    obtain ⟨sameId, samePhase, -⟩ := Party.add?_spec added
    obtain rfl : P.id = party := sameId.trans loaded.id
    have party := Entry.draft_writes (e := (⟨P, e.previous⟩ : Entry Party)) P.readable
    have member := Entry.draft_writes (e := .fresh (⟨player, P.id⟩ : Member)) (Member.readable _)
    refine after_over (backstage_over idle ?_ fun ks needs => offstage P.id (some P) ?_ ?_ ?_)
    · exact List.forall_mem_cons.2
        ⟨backstage_party rfl, List.forall_mem_singleton.2 (backstage_member rfl)⟩
    · exact fun y => (member.record?_other _ y).trans (party.record? _ y)
    · intro Q stored
      have old : ks.record? Party P.id = some e.record := loaded.unchanged rfl rfl
        (Operation.holds_update (Operation.holds_cons needs).1 _ List.mem_cons_self)
      obtain rfl := Option.some.inj (old.symm.trans stored)
      exact forming
    · rintro _ ⟨⟩
      exact samePhase.trans forming

theorem leave_safe (idle : Idle i L) (player : String) :
    Safe account i (Over i) (Parties.leave player) L := by
  unfold Parties.leave
  refine Safe.bind (Safe.getOr idle.plain.settled (fun L₁ m later ready stored => ?_)
    fun L₁ _ later ready => ⟨ready.inv, (idle.later later).untaken⟩)
  have idle := idle.later later
  refine Safe.bind (Safe.getOr idle.plain.settled (fun L₂ e later ready stored => ?_)
    fun L₂ _ later ready => ⟨ready.inv, (idle.later later).untaken⟩)
  have idle := idle.later later
  have loaded : e.Loaded m.record.party :=
    Keyspace.loaded_of_entry? stored (ready.known.partyId (Keyspace.record?_of_entry? stored))
  dsimp only
  split
  next => exact ⟨ready.inv, idle.untaken⟩
  next forming =>
    have forming : e.record.phase = .forming := not_not.1 forming
    refine after_over (backstage_over idle ?_ fun ks needs =>
      offstage m.record.party (Parties.left e.record player) (fun y => ?_) ?_ ?_)
    · exact List.forall_mem_cons.2 ⟨backstage_member rfl,
        List.forall_mem_singleton.2 (backstage_party (Parties.keys_departure e player))⟩
    · refine (Parties.record?_departure loaded player y).trans (if_congr Iff.rfl rfl ?_)
      exact Keyspace.record?_erase_other ks m.id y
    · intro P stored
      have old := Parties.stored_of_departure loaded
        (Operation.holds_cons (Operation.holds_cons needs).2).1
      obtain rfl := Option.some.inj (old.symm.trans stored)
      exact forming
    · intro P stays
      exact (Parties.left_phase stays).trans forming

end Custody

end Matchmaking
