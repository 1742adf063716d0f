import Matchmaking.Proofs.PartyChanges
import Matchmaking.Proofs.Safety

/-!
# Members and parties agree

A player has a member record that names a party exactly if the party is stored and
lists the player, and every stored party is led by one of its members and within
its bounds (`Membership`).  This holds in every reachable world, whatever callers
assign.

Every commit keeps it.  Joining and leaving write both sides at once, and check
that the party they computed with is still the one that is stored.  The other
calls change the phase of a party at most.
-/

namespace Matchmaking

/-! ## The invariant -/

/-- Member records and stored parties agree. -/
structure Membership (ks : Keyspace) : Prop where
  /-- Members and parties can be read. -/
  legible : ks.Legible Member ∧ ks.Legible Party
  /-- A member record is stored under the id of its player. -/
  memberId : ∀ {x m}, ks.record? Member x = some m → m.id = x
  /-- A party is stored under its id. -/
  partyId : ∀ {p P}, ks.record? Party p = some P → P.id = p
  /-- Every stored party is led by a member and within its bounds. -/
  sound : ∀ {p P}, ks.record? Party p = some P → P.Sound
  /-- The party of a member record is stored and lists the player. -/
  lists : ∀ {x m}, ks.record? Member x = some m →
    ∃ P, ks.record? Party m.party = some P ∧ x ∈ P.members
  /-- The players of a stored party have member records. -/
  member : ∀ {p P x}, ks.record? Party p = some P → x ∈ P.members →
    ks.record? Member x = some ⟨x, p⟩

namespace Membership

variable {ks ks' : Keyspace}

theorem empty : Membership ∅ := by
  have none (α : Type) [Record α] (x : String) : Keyspace.record? α ∅ x = none :=
    Keyspace.record?_of_absent Std.ExtTreeMap.getElem?_empty
  refine ⟨⟨Keyspace.legible_empty, Keyspace.legible_empty⟩, ?_, ?_, ?_, ?_, ?_⟩ <;>
    intros <;> simp_all

/-- A player is listed by one party at most. -/
theorem unique (h : Membership ks) {p q x : String} {P Q : Party}
    (hP : ks.record? Party p = some P) (hQ : ks.record? Party q = some Q) (hx : x ∈ P.members)
    (hx' : x ∈ Q.members) : p = q := by
  have same := (h.member hP hx).symm.trans (h.member hQ hx')
  exact congrArg Member.party (Option.some.inj same)

/-- A party and the record of one player are rewritten together.  The other players of
the party stay the same, and the player is in no other party. -/
theorem revise (h : Membership ks) (p x : String) (after : Option Party) (record : Option Member)
    (legible : ks'.Legible Member ∧ ks'.Legible Party)
    (party : ∀ y, ks'.record? Party y = if y = p then after else ks.record? Party y)
    (member : ∀ y, ks'.record? Member y = if y = x then record else ks.record? Member y)
    (sound : ∀ P, after = some P → P.id = p ∧ P.Sound)
    (others : ∀ y, y ≠ x → ((∃ P, after = some P ∧ y ∈ P.members) ↔
      ∃ P, ks.record? Party p = some P ∧ y ∈ P.members))
    (listed : ∀ P, after = some P → x ∈ P.members → record = some ⟨x, p⟩)
    (recorded : ∀ m, record = some m → m = ⟨x, p⟩ ∧ ∃ P, after = some P ∧ x ∈ P.members)
    (free : ∀ m, ks.record? Member x = some m → m.party = p) : Membership ks' := by
  refine ⟨legible, ?_, ?_, ?_, ?_, ?_⟩
  · intro y m hm
    rw [member] at hm
    split at hm
    next here =>
      rw [(recorded m hm).1, here]
    next => exact h.memberId hm
  · intro q P hP
    rw [party] at hP
    split at hP
    next here => exact here ▸ (sound P hP).1
    next => exact h.partyId hP
  · intro q P hP
    rw [party] at hP
    split at hP
    next => exact (sound P hP).2
    next => exact h.sound hP
  · intro y m hm
    rw [member] at hm
    split at hm
    next here =>
      obtain ⟨rfl, P, hP, hx⟩ := recorded m hm
      exact ⟨P, by rw [party, if_pos rfl, hP], here ▸ hx⟩
    next other =>
      obtain ⟨P, hP, hy⟩ := h.lists hm
      rw [party]
      by_cases here : m.party = p
      · obtain ⟨P', hP', hy'⟩ := (others y other).2 ⟨P, here ▸ hP, hy⟩
        exact ⟨P', by rw [if_pos here, hP'], hy'⟩
      · exact ⟨P, by rw [if_neg here, hP], hy⟩
  · intro q P y hP hy
    rw [party] at hP
    rw [member]
    split at hP
    next here =>
      subst here
      split
      next same =>
        subst same
        exact listed P hP hy
      next other =>
        obtain ⟨P', hP', hy'⟩ := (others y other).1 ⟨P, hP, hy⟩
        exact h.member hP' hy'
    next other =>
      have record := h.member hP hy
      split
      next same =>
        subst same
        exact absurd (free _ record) other
      next => exact record

/-- Phases of parties change. -/
theorem phases (h : Membership ks) (legible : ks'.Legible Member ∧ ks'.Legible Party)
    (party : ∀ y, ks'.record? Party y = ks.record? Party y ∨
      ∃ P phase, ks.record? Party y = some P ∧ ks'.record? Party y = some { P with phase := phase })
    (member : ∀ y, ks'.record? Member y = ks.record? Member y) : Membership ks' := by
  have back {p : String} {P : Party} (hP : ks'.record? Party p = some P) :
      ∃ P₀ phase, ks.record? Party p = some P₀ ∧ P = { P₀ with phase := phase } := by
    rcases party p with same | ⟨P₀, phase, hP₀, hP'⟩
    · exact ⟨P, P.phase, same ▸ hP, rfl⟩
    · exact ⟨P₀, phase, hP₀, Option.some.inj (hP.symm.trans hP')⟩
  refine ⟨legible, ?_, ?_, ?_, ?_, ?_⟩
  · intro x m hm
    exact h.memberId (member x ▸ hm)
  · intro p P hP
    obtain ⟨P₀, phase, hP₀, rfl⟩ := back hP
    have own : P₀.id = p := h.partyId hP₀
    exact own
  · intro p P hP
    obtain ⟨P₀, phase, hP₀, rfl⟩ := back hP
    have := h.sound hP₀
    exact ⟨this.inhabited, this.fits, this.led⟩
  · intro x m hm
    obtain ⟨P, hP, hx⟩ := h.lists (member x ▸ hm)
    rcases party m.party with same | ⟨P₀, phase, hP₀, hP'⟩
    · exact ⟨P, same.trans hP, hx⟩
    · obtain rfl := Option.some.inj (hP.symm.trans hP₀)
      exact ⟨_, hP', hx⟩
  · intro p P x hP hx
    obtain ⟨P₀, phase, hP₀, rfl⟩ := back hP
    exact (member x).trans (h.member hP₀ hx)

/-! ## Commits -/

/-- A new party of its leader. -/
theorem create (h : Membership ks) {P : Party} {x : String} (sound : P.Sound)
    (only : ∀ y, y ∈ P.members ↔ y = x)
    (needs : ∀ r ∈ Operation.allRequirements [.create [(Entry.fresh P).draft],
      .create [(Entry.fresh (⟨x, P.id⟩ : Member)).draft]], r.Holds ks) :
    Membership (Operation.allEffects ks [.create [(Entry.fresh P).draft],
      .create [(Entry.fresh (⟨x, P.id⟩ : Member)).draft]]) := by
  obtain ⟨noParty, needs⟩ := Operation.holds_cons needs
  obtain ⟨noMember, -⟩ := Operation.holds_cons needs
  have newParty : ks.record? Party P.id = none :=
    Keyspace.record?_of_absent (Operation.holds_create noParty _ List.mem_cons_self)
  have newMember : ks.record? Member x = none :=
    Keyspace.record?_of_absent (Operation.holds_create noMember _ List.mem_cons_self)
  have party := Entry.draft_writes (e := .fresh P) P.readable
  have member := Entry.draft_writes (e := .fresh (⟨x, P.id⟩ : Member)) (Member.readable _)
  refine h.revise P.id x (some P) (some ⟨x, P.id⟩)
    ⟨h.legible.1.among (fun _ => member.legible) [_] [] ?_,
      h.legible.2.among (fun _ => party.legible) [] [_] ?_⟩
    (fun y => ?_) (fun y => ?_) ?_ ?_ ?_ ?_ ?_
  · exact List.forall_mem_singleton.2 (Operation.draftsOf_singleton _).spares_create
  · exact List.forall_mem_singleton.2 (Operation.draftsOf_singleton _).spares_create
  · exact (member.record?_other _ y).trans (party.record? ks y)
  · rw [← party.record?_other ks y]
    exact member.record? _ y
  · rintro _ ⟨⟩
    exact ⟨rfl, sound⟩
  · intro y other
    constructor
    · rintro ⟨_, ⟨⟩, hy⟩
      exact absurd ((only y).1 hy) other
    · rintro ⟨Q, hQ, -⟩
      rw [newParty] at hQ
      contradiction
  · exact fun _ _ _ => rfl
  · rintro _ ⟨⟩
    exact ⟨rfl, P, rfl, (only x).2 rfl⟩
  · intro m hm
    rw [newMember] at hm
    contradiction

/-- A party that gained a player. -/
theorem join (h : Membership ks) {e : Entry Party} {p x token : String} {P : Party}
    (loaded : e.Loaded p) (added : e.record.add? x token = some P)
    (needs : ∀ r ∈ Operation.allRequirements [.update [(⟨P, e.previous⟩ : Entry Party).draft],
      .create [(Entry.fresh (⟨x, p⟩ : Member)).draft]], r.Holds ks) :
    Membership (Operation.allEffects ks [.update [(⟨P, e.previous⟩ : Entry Party).draft],
      .create [(Entry.fresh (⟨x, p⟩ : Member)).draft]]) := by
  obtain ⟨sameParty, needs⟩ := Operation.holds_cons needs
  obtain ⟨noMember, -⟩ := Operation.holds_cons needs
  obtain ⟨sameId, -, new, listed, sound⟩ := Party.add?_spec added
  obtain rfl : P.id = p := sameId.trans loaded.id
  have old : ks.record? Party P.id = some e.record :=
    loaded.unchanged rfl rfl (Operation.holds_update sameParty _ List.mem_cons_self)
  have newMember : ks.record? Member x = none :=
    Keyspace.record?_of_absent (Operation.holds_create noMember _ List.mem_cons_self)
  have party := Entry.draft_writes (e := (⟨P, e.previous⟩ : Entry Party)) P.readable
  have member := Entry.draft_writes (e := .fresh (⟨x, P.id⟩ : Member)) (Member.readable _)
  refine h.revise P.id x (some P) (some ⟨x, P.id⟩)
    ⟨h.legible.1.among (fun _ => member.legible) [_] [] ?_,
      h.legible.2.among (fun _ => party.legible) [] [_] ?_⟩
    (fun y => ?_) (fun y => ?_) ?_ ?_ ?_ ?_ ?_
  · exact List.forall_mem_singleton.2 (Operation.draftsOf_singleton _).spares_update
  · exact List.forall_mem_singleton.2 (Operation.draftsOf_singleton _).spares_create
  · exact (member.record?_other _ y).trans (party.record? ks y)
  · rw [← party.record?_other ks y]
    exact member.record? _ y
  · rintro _ ⟨⟩
    exact ⟨rfl, sound (h.sound old)⟩
  · intro y other
    constructor
    · rintro ⟨_, ⟨⟩, hy⟩
      exact ⟨e.record, old, ((listed y).1 hy).resolve_left other⟩
    · rintro ⟨Q, hQ, hy⟩
      obtain rfl := Option.some.inj (hQ.symm.trans old)
      exact ⟨P, rfl, (listed y).2 (.inr hy)⟩
  · exact fun _ _ _ => rfl
  · rintro _ ⟨⟩
    exact ⟨rfl, P, rfl, (listed x).2 (.inl rfl)⟩
  · intro m hm
    rw [newMember] at hm
    contradiction

/-- A party that lost a player, or that its last player left. -/
theorem leave (h : Membership ks) {m : Entry Member} {e : Entry Party} {x : String}
    (loadedMember : m.Loaded x) (loaded : e.Loaded m.record.party)
    (needs : ∀ r ∈ Operation.allRequirements [.delete [m.draft], Parties.departure e x],
      r.Holds ks) :
    Membership (Operation.allEffects ks [.delete [m.draft], Parties.departure e x]) := by
  obtain ⟨sameMember, needs⟩ := Operation.holds_cons needs
  obtain ⟨sameParty, -⟩ := Operation.holds_cons needs
  have memberKey : m.key = .entry Member x := congrArg (Key.entry Member) loadedMember.id
  have oldMember : ks.record? Member x = some m.record :=
    loadedMember.unchanged memberKey rfl (Operation.holds_delete sameMember _ List.mem_cons_self)
  have old : ks.record? Party m.record.party = some e.record :=
    Parties.stored_of_departure loaded sameParty
  obtain ⟨_, hP, hx⟩ := h.lists oldMember
  obtain rfl := Option.some.inj (hP.symm.trans old)
  obtain ⟨P, removed, sameId, -, listed, sound⟩ := Party.remove?_spec (h.sound old) hx
  have newId : P.id = m.record.party := sameId.trans loaded.id
  have left : Parties.left e.record x = if P.size = 0 then none else some P := by
    rw [Parties.left, removed]
    rfl
  have some_left {P' : Party} (stays : Parties.left e.record x = some P') :
      P' = P ∧ P.size ≠ 0 := by
    rw [left] at stays
    split at stays
    next => contradiction
    next somebody => exact ⟨(Option.some.inj stays).symm, somebody⟩
  refine h.revise m.record.party x (Parties.left e.record x) none
    ⟨h.legible.1.among (fun ks legible => ?_) [] [_] ?_,
      h.legible.2.among (fun _ => Parties.legible_departure e x) [_] [] ?_⟩
    (fun y => ?_) (fun y => ?_) ?_ ?_ ?_ ?_ ?_
  · exact legible.erase m.id
  · exact List.forall_mem_singleton.2 (Parties.spares_departure e x)
  · exact List.forall_mem_singleton.2 (Operation.draftsOf_singleton m).spares_delete
  · refine (Parties.record?_departure loaded x y).trans ?_
    have spared : Keyspace.record? Party (ks.erase m.key) y = ks.record? Party y :=
      Keyspace.record?_erase_other ks m.id y
    exact if_congr Iff.rfl rfl spared
  · have spared : (Parties.departure e x).Spares (Record.kind Member) :=
      Parties.spares_departure e x
    refine (Keyspace.record?_congr (Operation.getElem?_effect (spared y) _)).trans ?_
    have erased := Keyspace.record?_erase (α := Member) ks x y
    rw [← memberKey] at erased
    exact erased
  · intro P' stays
    obtain ⟨rfl, somebody⟩ := some_left stays
    exact ⟨newId, sound somebody⟩
  · intro y other
    constructor
    · rintro ⟨P', stays, hy⟩
      obtain ⟨rfl, -⟩ := some_left stays
      exact ⟨e.record, old, ((listed y).1 hy).2⟩
    · rintro ⟨Q, hQ, hy⟩
      obtain rfl := Option.some.inj (hQ.symm.trans old)
      have stays := (listed y).2 ⟨other, hy⟩
      refine ⟨P, left.trans (if_neg fun nobody => ?_), stays⟩
      rw [Std.ExtTreeMap.eq_empty_iff_size_eq_zero.2 nobody] at stays
      exact absurd stays Std.ExtTreeMap.not_mem_empty
  · intro P' stays hx
    obtain ⟨rfl, -⟩ := some_left stays
    exact absurd rfl ((listed x).1 hx).1
  · exact fun _ none => by contradiction
  · intro m' hm'
    rw [Option.some.inj (hm'.symm.trans oldMember)]

/-- An operation that writes neither members nor parties. -/
def Apart (op : Operation) : Prop :=
  op.Spares (Record.kind Member) ∧ op.Spares (Record.kind Party)

/-- Operations apart from members and parties keep the agreement. -/
theorem spared (h : Membership ks) {ops : List Operation} (apart : ∀ op ∈ ops, Apart op) :
    Membership (Operation.allEffects ks ops) :=
  h.phases ⟨h.legible.1.allEffects fun op hop => (apart op hop).1,
      h.legible.2.allEffects fun op hop => (apart op hop).2⟩
    (fun y => .inl (Operation.record?_allEffects (fun op hop => (apart op hop).2) ks y))
    (Operation.record?_allEffects (fun op hop => (apart op hop).1) ks)

/-- The phase of one party changes, and nothing else of members and parties. -/
theorem phased (h : Membership ks) {e : Entry Party} {p : String} (loaded : e.Loaded p)
    (phase : Phase) (before after : List Operation) (apart : ∀ op ∈ before ++ after, Apart op)
    (same : (Requirement.unchanged (e.modify fun P => { P with phase := phase }).draft).Holds ks) :
    Membership (Operation.allEffects ks
      (before ++ .update [(e.modify fun P => { P with phase := phase }).draft] :: after)) := by
  have old : ks.record? Party p = some e.record :=
    loaded.unchanged (congrArg (Key.entry Party) loaded.id) rfl same
  have party := Entry.draft_writes (e := e.modify fun P => { P with phase := phase })
    (Party.readable _)
  have ownId : (e.modify fun P => { P with phase := phase }).id = p := loaded.id
  rw [ownId] at party
  have update := Operation.draftsOf_singleton (e.modify fun P => { P with phase := phase })
  refine h.phases ⟨h.legible.1.allEffects fun op hop => ?_,
    h.legible.2.among (fun _ => party.legible) before after fun op hop => (apart op hop).2⟩
    (fun y => ?_) fun y => ?_
  · rcases List.mem_append.1 hop with hop | hop
    · exact (apart op (List.mem_append_left _ hop)).1
    · rcases List.mem_cons.1 hop with rfl | hop
      · exact update.spares_update
      · exact (apart op (List.mem_append_right _ hop)).1
  · have parties : ∀ op ∈ before ++ after, op.Spares (Record.kind Party) :=
      fun op hop => (apart op hop).2
    by_cases here : y = p
    · refine .inr ⟨e.record, phase, here ▸ old, ?_⟩
      exact (party.record?_among (fun _ => rfl) before after parties ks y).trans (if_pos here)
    · exact .inl ((party.record?_among (fun _ => rfl) before after parties ks y).trans (if_neg here))
  · obtain ⟨first, rest⟩ := List.forall_mem_append.1 apart
    refine (Operation.record?_among before (fun op hop => (rest op hop).1) ks y).trans ?_
    refine (party.record?_other _ y).trans ?_
    exact Operation.record?_allEffects (fun op hop => (first op hop).1) ks y

/-! ## Calls -/

/-- The account of members and parties.  Calls rely on the agreement alone. -/
def account : Account where
  discipline := .free
  Known _ := True
  Inv L := Membership L.keyspace
  Rely _ L L' := Membership L.keyspace → Membership L'.keyspace
  refl _ _ := id
  trans _ h h' := h' ∘ h

section

variable {i : Nat} {L : Ledger}

theorem keeps {L' : Ledger} (h : Membership L'.keyspace) : account.Keeps i L L' :=
  ⟨h, fun _ _ _ => h⟩

/-- What calls agree on: the agreement holds when they are over. -/
abbrev Ended {ε α : Type} (_ : Except ε α) (L : Ledger) : Prop := Membership L.keyspace

/-- A transaction that keeps the agreement. -/
theorem transact_safe {post : Except StoreError Commit → Ledger → Prop} {ops : List Operation}
    (settled : Safe.Settled i L)
    (kept : ∀ ks, Membership ks → (∀ r ∈ Operation.allRequirements ops, r.Holds ks) →
      Membership (Operation.allEffects ks ops))
    (idle : ∀ result L', account.Later i L L' → Membership L'.keyspace → post result L')
    (done : ∀ result L', account.Later i L L' → Membership (Safe.committed L' i ops).keyspace →
      post result (Safe.committed L' i ops)) :
    Safe account i post (Client.transact ops) L := by
  refine Safe.transact settled ?_ ?_ ?_
  · exact fun _ _ L' later ready _ => idle _ L' later ready.inv
  · exact fun L' later ready _ _ => idle _ L' later ready.inv
  · intro L' later ready holds
    have after := kept L'.keyspace ready.inv holds
    exact ⟨keeps after, fun _ => done _ L' later after⟩

/-- A commit that keeps the agreement. -/
theorem commit_safe {ops : List Operation} {name : String} {onExists : String → GatewayError}
    (settled : Safe.Settled i L)
    (kept : ∀ ks, Membership ks → (∀ r ∈ Operation.allRequirements ops, r.Holds ks) →
      Membership (Operation.allEffects ks ops)) :
    Safe account i Ended (Call.commit name onExists (Client.transact ops)) L :=
  Safe.mapError (transact_safe settled kept (fun _ _ _ inv => inv) fun _ _ _ inv => inv)

/-- A procedure that goes on with nothing after a call. -/
theorem after_safe {α β : Type} {p : Call α} {b : β} (h : Safe account i Ended p L) :
    Safe account i Ended (p >>= fun _ => pure b) L := by
  refine Safe.bind (h.mono fun result L' inv => ?_)
  cases result <;> exact inv

theorem create_safe (plain : Safe.Plain i L) (inv : Membership L.keyspace)
    (id leader token : String) (min max : UInt32) :
    Safe account i Ended (Parties.create id leader token min max) L := by
  unfold Parties.create
  refine Safe.bind ?_
  cases created : Party.create id leader token min max with
  | error e => exact inv
  | ok P =>
    obtain ⟨sound, rfl, -, only⟩ := Party.create_spec created
    exact after_safe (commit_safe plain.settled fun ks h needs => h.create sound only needs)

theorem join_safe (plain : Safe.Plain i L) (player token party : String) :
    Safe account i Ended (Parties.join player token party) L := by
  unfold Parties.join
  refine Safe.bind (Safe.getOr plain.settled (fun L₁ e later ready stored => ?_)
    fun L₁ _ _ ready => ready.inv)
  have loaded : e.Loaded party :=
    Keyspace.loaded_of_entry? stored (ready.inv.partyId (Keyspace.record?_of_entry? stored))
  refine Safe.bind ?_
  cases accepted : Parties.accept e.record player token with
  | error _ => exact ready.inv
  | ok P =>
    obtain ⟨-, added⟩ := Parties.accept_spec accepted
    exact after_safe (commit_safe (plain.later later).settled
      fun ks h needs => h.join loaded added needs)

theorem leave_safe (plain : Safe.Plain i L) (player : String) :
    Safe account i Ended (Parties.leave player) L := by
  unfold Parties.leave
  refine Safe.bind (Safe.getOr plain.settled (fun L₁ m later ready stored => ?_)
    fun L₁ _ _ ready => ready.inv)
  have loadedMember : m.Loaded player :=
    Keyspace.loaded_of_entry? stored (ready.inv.memberId (Keyspace.record?_of_entry? stored))
  have plain := plain.later later
  refine Safe.bind (Safe.getOr plain.settled (fun L₂ e later ready stored => ?_)
    fun L₂ _ _ ready => ready.inv)
  have loaded : e.Loaded m.record.party :=
    Keyspace.loaded_of_entry? stored (ready.inv.partyId (Keyspace.record?_of_entry? stored))
  dsimp only
  split
  · exact ready.inv
  · exact after_safe (commit_safe (plain.later later).settled
      fun ks h needs => h.leave loadedMember loaded needs)

theorem queue_safe (plain : Safe.Plain i L) (player matchmakingType : String) (metadata : TextMap)
    (now : Score) :
    Safe account i Ended (Gateway.join player matchmakingType metadata now) L := by
  unfold Gateway.join Parties.ofPlayer
  refine Safe.bind (Safe.bind (Safe.find plain.settled (fun L₁ later ready => ?_)
    fun L₁ _ _ ready => ready.inv))
  have plain := plain.later later
  cases L₁.keyspace.entry? Member player with
  | none => exact ready.inv
  | some m =>
    refine Safe.find plain.settled (fun L₂ later ready => ?_) fun L₂ _ _ ready => ready.inv
    have plain := plain.later later
    cases stored : L₂.keyspace.entry? Party m.record.party with
    | none => exact ready.inv
    | some e =>
      have loaded : e.Loaded m.record.party :=
        Keyspace.loaded_of_entry? stored (ready.inv.partyId (Keyspace.record?_of_entry? stored))
      refine Safe.bind ?_
      cases Gateway.mayQueue e.record player with
      | error _ => exact ready.inv
      | ok _ =>
        refine after_safe (commit_safe plain.settled fun ks h needs => ?_)
        obtain ⟨same, -⟩ := Operation.holds_cons needs
        have unchanged := Operation.holds_update same _ List.mem_cons_self
        refine h.phased loaded .matchmaking [] _ ?_ unchanged
        simp only [List.nil_append, List.forall_mem_cons, List.not_mem_nil, false_implies,
          implies_true, and_true]
        have request := Operation.draftsOf_singleton (Entry.fresh (PartyRequest.ofParty
          (e.modify fun P => { P with phase := .matchmaking }).record matchmakingType metadata now))
        refine ⟨⟨request.spares_create, request.spares_create⟩, ?_, ?_⟩
        · exact ⟨(Operation.draftsOf_map id _).spares_create,
            (Operation.draftsOf_map id _).spares_create⟩
        · exact ⟨Operation.spares_enqueue _, Operation.spares_enqueue _⟩

/-- What calls that take several steps agree on: the agreement holds, and the call goes
on making requests. -/
abbrev resting (i : Nat) {ε α : Type} (_ : Except ε α) (L : Ledger) : Prop :=
  Membership L.keyspace ∧ Safe.Plain i L

theorem bind_rests {α β : Type} {p : Call α} {f : α → Call β}
    (h : Safe account i (resting i) p L)
    (rest : ∀ a L', Membership L'.keyspace → Safe.Plain i L' →
      Safe account i (resting i) (f a) L') : Safe account i (resting i) (p >>= f) L := by
  refine Safe.bind (h.mono fun result L' h => ?_)
  cases result with
  | ok a => exact rest a L' h.1 h.2
  | error _ => exact h

theorem getStored_rests {β : Type} [Record β] (inv : Membership L.keyspace)
    (plain : Safe.Plain i L) (ids : List String) :
    Safe account i (resting i) (Call.getStored β ids) L :=
  Safe.getStored (fun _ _ => True) plain.settled (fun _ _ _ _ _ => trivial)
    (fun _ _ later _ _ _ => ⟨later.rely inv, plain.later later⟩)
    fun _ _ later _ => ⟨later.rely inv, plain.later later⟩

theorem attempt_rests {ops : List Operation} (plain : Safe.Plain i L)
    (apart : ∀ op ∈ ops, Apart op) :
    Safe account i (resting i) ((Client.transact ops).attempt : Call _) L :=
  Safe.attempt (transact_safe plain.settled (fun _ h _ => h.spared apart)
    (fun _ _ later inv => ⟨inv, plain.later later⟩)
    fun _ _ later inv => ⟨inv, (plain.later later).committed ops⟩)

theorem tryMatching_rests (inv : Membership L.keyspace) (plain : Safe.Plain i L)
    (requests : List (Entry PartyRequest)) :
    Safe account i (resting i) (Gateway.tryMatching requests) L := by
  unfold Gateway.tryMatching
  rw [Gateway.playerRequests_eq]
  refine bind_rests (getStored_rests inv plain _) fun players L' inv plain => ?_
  refine attempt_rests plain (List.forall_mem_singleton.2 ?_)
  have drafts := Operation.draftsOf_map
    (fun e : Entry PlayerRequest => e.modify (·.withState .matching)) players
  exact ⟨drafts.spares_update, drafts.spares_update⟩

theorem setMatching_rests (inv : Membership L.keyspace) (plain : Safe.Plain i L)
    (requests : List (Entry PartyRequest)) (retries : Nat) :
    Safe account i (resting i) (Gateway.setMatching requests retries) L := by
  have ended (outcome : Except StoreError Commit) (L' : Ledger) (h : resting i outcome L') :
      Safe account i (resting i) (Gateway.endMatching outcome) L' := by
    cases outcome <;> exact h
  induction retries generalizing L with
  | zero =>
    unfold Gateway.setMatching
    exact bind_rests (tryMatching_rests inv plain requests)
      fun outcome L' inv plain => ended outcome L' ⟨inv, plain⟩
  | succ retries ih =>
    unfold Gateway.setMatching
    refine bind_rests (tryMatching_rests inv plain requests) fun outcome L' inv plain => ?_
    cases outcome with
    | ok _ => exact ⟨inv, plain⟩
    | error e =>
      dsimp only
      split
      · exact ih inv plain
      · exact ended (.error e) L' ⟨inv, plain⟩

theorem pop_safe (inv : Membership L.keyspace) (plain : Safe.Plain i L) (queue : String)
    (count : Nat) : Safe account i Ended (Gateway.pop queue count) L := by
  suffices Safe account i (resting i) (Gateway.pop queue count) L from this.mono fun _ _ h => h.1
  unfold Gateway.pop
  split
  · exact ⟨inv, plain⟩
  · refine Safe.bind (Safe.mapError (Safe.begin plain.settled fun L₁ later ready id settings => ?_))
    have plain := plain.later later
    have dequeue : ∀ op ∈ [Operation.dequeue queue count], Apart op :=
      List.forall_mem_singleton.2
        ⟨Operation.spares_dequeue _ _, Operation.spares_dequeue _ _⟩
    have put (members : List ScoredMember) :
        ∀ op ∈ [Operation.enqueueMembers queue members], Apart op :=
      List.forall_mem_singleton.2 ⟨Operation.spares_enqueueMembers _ _,
        Operation.spares_enqueueMembers _ _⟩
    refine bind_rests (Safe.mapError (Safe.commit [.dequeue queue count] plain.settled
      ?_ ?_ ?_ ?_)) fun commit L' inv plain => ?_
    · exact fun _ _ => ⟨ready.inv, plain⟩
    · exact fun _ _ => ⟨ready.inv, plain⟩
    · exact fun L₂ later ready _ _ => ⟨ready.inv, plain.later later⟩
    · intro L₂ later ready _ _ _
      have after := ready.inv.spared dequeue
      exact ⟨keeps after, after, (plain.later later).committed _⟩
    · refine Safe.tryCatch (Safe.mono (fun result L₂ h => ?_)
        (bind_rests (getStored_rests inv plain _) fun requests L₂ inv plain =>
          bind_rests (setMatching_rests inv plain requests _) fun _ _ inv plain => ⟨inv, plain⟩))
      cases result with
      | ok requests => exact h
      | error e =>
        refine bind_rests (bind_rests (attempt_rests h.2 (put _)) ?_)
          fun _ _ inv plain => ⟨inv, plain⟩
        exact fun _ _ inv plain => ⟨inv, plain⟩

theorem assignOne_safe (a : Gateway.Assignment) :
    Safe account i Ended (Gateway.assignOne a) L := by
  unfold Gateway.assignOne
  refine Safe.bind (Safe.getOr_asking fun L₁ _ ready => ?_)
  refine ⟨keeps ready.inv, fun request _ => ?_, fun _ => ready.inv⟩
  have settled := Safe.settled_ask i L₁
  refine Safe.bind (Safe.getOr settled (fun L₂ party later ready stored => ?_)
    fun L₂ _ _ ready => ready.inv)
  have loaded : party.Loaded a.party :=
    Keyspace.loaded_of_entry? stored (ready.inv.partyId (Keyspace.record?_of_entry? stored))
  have inv := ready.inv
  have settled := settled.later later
  refine Safe.bind (Safe.getStored (fun _ _ => True) settled (fun _ _ _ _ _ => trivial)
    (fun L₃ players later _ _ _ => ?_) fun L₃ _ later _ => later.rely inv)
  refine after_safe (commit_safe (settled.later later) fun ks h needs => ?_)
  have request' := Operation.draftsOf_singleton request
  have delete : ∀ op ∈ [Operation.delete [request.draft]], Apart op :=
    List.forall_mem_singleton.2
      ⟨request'.spares_delete, request'.spares_delete⟩
  have update (f : PlayerRequest → PlayerRequest) :
      Apart (.update (players.map fun e => (e.modify f).draft)) :=
    ⟨(Operation.draftsOf_map _ _).spares_update,
      (Operation.draftsOf_map _ _).spares_update⟩
  have phase (f : PlayerRequest → PlayerRequest) (phase : Phase)
      (needs : ∀ r ∈ Operation.allRequirements
        [.update (players.map fun e => (e.modify f).draft),
          .update [(party.modify fun P => { P with phase := phase }).draft],
          .delete [request.draft]], r.Holds ks) :
      Membership (Operation.allEffects ks
        [.update (players.map fun e => (e.modify f).draft),
          .update [(party.modify fun P => { P with phase := phase }).draft],
          .delete [request.draft]]) := by
    obtain ⟨-, needs⟩ := Operation.holds_cons needs
    obtain ⟨same, -⟩ := Operation.holds_cons needs
    exact h.phased loaded phase [_] [_]
      (List.forall_mem_append.2 ⟨List.forall_mem_singleton.2 (update f), delete⟩)
      (Operation.holds_update same _ List.mem_cons_self)
  cases decision : a.decision with
  | matched deployment name =>
    rw [decision] at needs
    exact phase (·.assign deployment name) .inGame needs
  | requeued =>
    refine h.spared (List.forall_mem_cons.2 ⟨update (·.withState .requested), ?_⟩)
    exact List.forall_mem_singleton.2
      ⟨Operation.spares_enqueue _, Operation.spares_enqueue _⟩
  | error =>
    rw [decision] at needs
    exact phase (·.withState .error) .forming needs

theorem assign_safe (inv : Membership L.keyspace) (assignments : List Gateway.Assignment) :
    Safe account i Ended (Gateway.assign assignments) L := by
  induction assignments generalizing L with
  | nil => exact inv
  | cons a as ih =>
    refine Safe.bind ((assignOne_safe a).mono fun result L' inv => ?_)
    cases result with
    | ok _ => exact ih inv
    | error _ => exact inv

theorem status_safe (plain : Safe.Plain i L) (player : String) :
    Safe account i Ended (Gateway.status player) L := by
  unfold Gateway.status
  refine Safe.bind (Safe.getOr plain.settled (fun L₁ request later ready _ => ?_)
    fun L₁ _ _ ready => ready.inv)
  dsimp only
  split
  · refine after_safe (commit_safe (plain.later later).settled fun ks h _ => h.spared ?_)
    have request' := Operation.draftsOf_singleton request
    exact List.forall_mem_singleton.2
      ⟨request'.spares_delete, request'.spares_delete⟩
  · exact ready.inv

/-- Every call keeps the agreement. -/
theorem activity_safe (inv : Membership L.keyspace) {client : Nat} {activity : Activity} :
    Safe account i Ended activity.call (L.start i client activity) := by
  have inv : Membership (L.start i client activity).keyspace := inv
  cases activity with
  | create id leader token min max =>
    exact after_safe (create_safe (Safe.plain_start (by simp)) inv id leader token min max)
  | joinParty player token party =>
    exact after_safe (join_safe (Safe.plain_start (by simp)) player token party)
  | leave player => exact after_safe (leave_safe (Safe.plain_start (by simp)) player)
  | join player matchmakingType metadata now =>
    exact after_safe (queue_safe (Safe.plain_start (by simp)) player matchmakingType metadata now)
  | pop queue count => exact pop_safe inv (Safe.plain_start (by simp)) queue count
  | assign assignments => exact after_safe (assign_safe inv assignments)
  | status player => exact after_safe (status_safe (Safe.plain_start (by simp)) player)

end

/-- The agreement holds in every reachable world. -/
theorem of_reachable {w : World} (reach : World.Reachable .free w) :
    Membership w.ledger.keyspace := by
  have starts (L : Ledger) (i client : Nat) (activity : Activity) (inv : Membership L.keyspace) :
      account.Keeps i L (L.start i client activity) ∧
        Safe account i (account.close i) activity.call (L.start i client activity) :=
    ⟨keeps inv, (activity_safe inv).mono fun result L' inv => by
      have inv : Membership (L'.finish i result).keyspace := inv
      exact keeps inv⟩
  exact (account.holds empty (fun L i client activity inv _ _ => starts L i client activity inv)
    (fun _ _ => trivial) reach).inv

end Membership

/-- In every reachable world a member record of a player names a party exactly if the
party is stored and lists the player.  So a player is in one party at most.  Every
stored party has a member and room for all of them, and its leader is one of them,
with the token of that member.  Whatever is stored as a member or a party is one. -/
theorem membership_agrees {w : World} (reach : World.Reachable .free w) :
    (∀ x p, (∃ m, w.ledger.keyspace.record? Member x = some m ∧ m.party = p) ↔
      ∃ P, w.ledger.keyspace.record? Party p = some P ∧ x ∈ P.members) ∧
    (∀ x p q P Q, w.ledger.keyspace.record? Party p = some P →
      w.ledger.keyspace.record? Party q = some Q → x ∈ P.members → x ∈ Q.members → p = q) ∧
    (∀ p P, w.ledger.keyspace.record? Party p = some P →
      1 ≤ P.size ∧ P.size ≤ P.maxMembers.toNat ∧ P.members[P.leader]? = some P.leaderToken) ∧
    (∀ x, Key.entry Member x ∈ w.ledger.keyspace →
      ∃ m, w.ledger.keyspace.record? Member x = some m) ∧
    ∀ p, Key.entry Party p ∈ w.ledger.keyspace →
      ∃ P, w.ledger.keyspace.record? Party p = some P := by
  have agreed := Membership.of_reachable reach
  refine ⟨fun x p => ⟨?_, ?_⟩, ?_, ?_, fun x => agreed.legible.1.mem_iff.1,
    fun p => agreed.legible.2.mem_iff.1⟩
  · rintro ⟨m, stored, rfl⟩
    exact agreed.lists stored
  · rintro ⟨P, stored, listed⟩
    exact ⟨⟨x, p⟩, agreed.member stored listed, rfl⟩
  · exact fun x p q P Q stored stored' listed listed' => agreed.unique stored stored' listed listed'
  · intro p P stored
    have sound := agreed.sound stored
    exact ⟨sound.inhabited, sound.fits, sound.led⟩

/-- Ann has created a party. -/
def createdWorld : World :=
  (World.initial.start 0 0 (.create "p" "ann" "token" 1 2)).turns 0 2

theorem membership_of_created_party :
    World.Reachable .free createdWorld ∧
      ∃ P, createdWorld.ledger.keyspace.record? Party "p" = some P ∧ "ann" ∈ P.members := by
  have started : World.Reachable .free (World.initial.start 0 0 (.create "p" "ann" "token" 1 2)) :=
    .step .initial (.start 0 0 _ rfl trivial)
  have reach : World.Reachable .free createdWorld := started.turns (fun _ => trivial) 2
  have recorded : createdWorld.ledger.keyspace.record? Member "ann" = some ⟨"ann", "p"⟩ := by
    decide +kernel
  exact ⟨reach, ((membership_agrees reach).1 "ann" "p").1 ⟨_, recorded, rfl⟩⟩

end Matchmaking
