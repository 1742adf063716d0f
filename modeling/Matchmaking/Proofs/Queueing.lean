import Matchmaking.Proofs.Forming

/-!
# Queueing a party keeps custody

A party that joins has no request, and none of its players has one.  So it is
nowhere, and afterwards it waits in the queue of its type, with requests for the
party and for each player.

A player's request that is deleted is over, so it belongs to no party that waits
for a match.
-/

namespace Matchmaking

/-! ## The requests of players -/

/-- The requests of a party's players are written under the ids of the players. -/
theorem PlayerRequest.record?_ofParty (P : Party) (matchmakingType : String) (metadata : TextMap)
    (ks : Keyspace) (x : String) :
    Keyspace.record? PlayerRequest ((((ofParty P matchmakingType metadata).map Entry.fresh).map
      Entry.draft).foldl Draft.write ks) x =
      match P.members[x]? with
      | some token => some (create x token matchmakingType metadata)
      | none => ks.record? PlayerRequest x := by
  have among {e : Entry PlayerRequest}
      (he : e ∈ (ofParty P matchmakingType metadata).map Entry.fresh) :
      ∃ token, P.members[e.id]? = some token ∧
        e.record = create e.id token matchmakingType metadata := by
    obtain ⟨pr, hpr, rfl⟩ := List.mem_map.1 he
    obtain ⟨⟨y, token⟩, listed, rfl⟩ := List.mem_map.1 hpr
    exact ⟨token, Std.ExtTreeMap.mem_toList_iff_getElem?_eq_some.1 listed, rfl⟩
  have readable : ∀ e ∈ (ofParty P matchmakingType metadata).map Entry.fresh, Readable e.record :=
    fun e _ => e.record.readable
  cases member : P.members[x]? with
  | none =>
    refine Keyspace.record?_writeAll_other readable (fun e he same => ?_) ks
    obtain ⟨token, there, -⟩ := among he
    rw [same, member] at there
    contradiction
  | some token =>
    have he : Entry.fresh (create x token matchmakingType metadata) ∈
        (ofParty P matchmakingType metadata).map Entry.fresh :=
      List.mem_map_of_mem (List.mem_map.2
        ⟨(x, token), Std.ExtTreeMap.mem_toList_iff_getElem?_eq_some.2 member, rfl⟩)
    refine Keyspace.record?_writeAll_mem readable he (fun e he' same => ?_) ks
    obtain ⟨token', there, record⟩ := among he'
    rw [same] at there record
    obtain rfl := Option.some.inj (member.symm.trans there)
    exact record

namespace Custody

variable {L : Ledger} {i : Nat}

/-! ## Status -/

/-- A player's request that is over can be deleted. -/
theorem forget (h : Custody L) (plain : Safe.Plain i L) {e : Entry PlayerRequest} {x : String}
    (loaded : e.Loaded x) (terminal : e.record.state.isTerminal = true)
    (needs : ∀ r ∈ Operation.allRequirements [.delete [e.draft]], r.Holds L.keyspace) :
    account.Keeps i L (Safe.committed L i [.delete [e.draft]]) := by
  have key : e.key = .entry PlayerRequest x := congrArg (Key.entry PlayerRequest) loaded.id
  have old : L.keyspace.record? PlayerRequest x = some e.record :=
    loaded.unchanged key rfl (Operation.holds_delete (Operation.holds_cons needs).1 _
      List.mem_cons_self)
  have effect : Operation.allEffects L.keyspace [.delete [e.draft]] =
      L.keyspace.erase (.entry PlayerRequest x) := congrArg L.keyspace.erase key
  have spares : ∀ op ∈ [Operation.delete [e.draft]], op.Spares Key.queueNamespace :=
    List.forall_mem_singleton.2 (Operation.draftsOf_singleton e).spares_delete
  have requests : ∀ op ∈ [Operation.delete [e.draft]], op.Spares (Record.kind PartyRequest) :=
    List.forall_mem_singleton.2 (Operation.draftsOf_singleton e).spares_delete
  have player : ∀ y, (Operation.allEffects L.keyspace [.delete [e.draft]]).record? PlayerRequest y =
      if y = x then none else L.keyspace.record? PlayerRequest y := by
    rw [effect]
    exact Keyspace.record?_erase L.keyspace x
  have request (p : String) :
      (Operation.allEffects L.keyspace [.delete [e.draft]]).record? PartyRequest p =
        L.keyspace.record? PartyRequest p := by
    rw [effect]
    exact Keyspace.record?_erase_other L.keyspace x p
  have party (p : String) :
      (Operation.allEffects L.keyspace [.delete [e.draft]]).record? Party p =
        L.keyspace.record? Party p := by
    rw [effect]
    exact Keyspace.record?_erase_other L.keyspace x p
  have remains {y : String} {pr : PlayerRequest}
      (stored : (Safe.committed L i [.delete [e.draft]]).keyspace.record? PlayerRequest y = some pr) :
      L.keyspace.record? PlayerRequest y = some pr := by
    have now := (player y).symm.trans stored
    split at now
    next => contradiction
    next => exact now
  refine h.keeps (fun _ => False) (fun _ => False.elim)
    (Operation.queues_allEffects spares h.queues) (h.legible.allEffects requests)
    (fun _ => False.elim)
    (fun p _ => plain.frame spares (request p) (fun P _ => by rw [party]) ?_) ?_ ?_
    (fun _ => Safe.calls_committed) fun _ => Safe.not_treats_committed
  · intro r stored y listed
    rw [player, if_neg]
    rintro rfl
    obtain ⟨pr, follows⟩ := ((h.orderly p).kept stored).player listed
    obtain rfl := Option.some.inj (old.symm.trans follows.stored)
    rw [follows.ongoing] at terminal
    contradiction
  · exact fun stored => h.playerId (remains stored)
  · intro y pr stored ongoing
    obtain ⟨p, r, there, listed⟩ := h.active (remains stored) ongoing
    exact ⟨p, r, (request p).trans there, listed⟩

theorem status_safe (idle : Idle i L) (player : String) :
    Safe account i (Over i) (Gateway.status player) L := by
  unfold Gateway.status
  refine Safe.bind (Safe.getOr idle.plain.settled (fun L₁ e later ready stored => ?_)
    fun L₁ _ later ready => ⟨ready.inv, (idle.later later).untaken⟩)
  have idle := idle.later later
  have loaded : e.Loaded player :=
    Keyspace.loaded_of_entry? stored (ready.inv.playerId (Keyspace.record?_of_entry? stored))
  dsimp only
  split
  next terminal =>
    refine after_over (commit_over idle (by simp) fun L' _ ready idle needs => ?_)
    exact ready.inv.forget idle.plain loaded terminal needs
  next => exact ⟨ready.inv, idle.untaken⟩

/-! ## Joining a queue -/

/-- What a party that joins writes. -/
def joining (e : Entry Party) (matchmakingType : String) (metadata : TextMap) (now : Score) :
    List Operation :=
  let party := e.modify fun P => { P with phase := .matchmaking }
  let request := Entry.fresh (PartyRequest.ofParty party.record matchmakingType metadata now)
  [.update [party.draft], .create [request.draft],
    .create (((PlayerRequest.ofParty party.record matchmakingType metadata).map Entry.fresh).map
      Entry.draft),
    .enqueue [request.queuePlace]]

theorem legible_joining {ks : Keyspace} (h : ks.Legible PartyRequest) (e : Entry Party)
    (matchmakingType : String) (metadata : TextMap) {now : Score} (proper : now.ReadsBack) :
    (Operation.allEffects ks (joining e matchmakingType metadata now)).Legible PartyRequest := by
  refine h.among (fun ks legible => ?_) [_] [_, _] ?_
  · exact (Entry.draft_writes (PartyRequest.readable proper)).legible legible
  · exact List.forall_mem_cons.2 ⟨(Operation.draftsOf_singleton _).spares_update,
      List.forall_mem_cons.2 ⟨(Operation.draftsOf_map id _).spares_create,
        List.forall_mem_singleton.2 (Operation.spares_enqueue _)⟩⟩

section

variable (ks : Keyspace) {e : Entry Party} {p : String} (loaded : e.Loaded p)
  (matchmakingType : String) (metadata : TextMap)

include loaded

/-- What the records are after a party has joined. -/
theorem record?_joining {now : Score} (proper : now.ReadsBack) {P : Party}
    (form : P = { e.record with phase := .matchmaking }) (y : String) :
    (Operation.allEffects ks (joining e matchmakingType metadata now)).record? Party y =
      (if y = p then some P else ks.record? Party y) ∧
    (Operation.allEffects ks (joining e matchmakingType metadata now)).record? PartyRequest y =
      (if y = p then some (.ofParty P matchmakingType metadata now)
      else ks.record? PartyRequest y) ∧
    (Operation.allEffects ks (joining e matchmakingType metadata now)).record? PlayerRequest y =
      match P.members[y]? with
      | some token => some (.create y token matchmakingType metadata)
      | none => ks.record? PlayerRequest y := by
  obtain rfl : P.id = p := by
    rw [form]
    exact loaded.id
  subst form
  let P : Party := { e.record with phase := .matchmaking }
  have party := Operation.draftsOf_singleton (e.modify fun P => { P with phase := .matchmaking })
  have request := Operation.draftsOf_singleton
    (Entry.fresh (PartyRequest.ofParty P matchmakingType metadata now))
  have players := Operation.draftsOf_map id
    ((PlayerRequest.ofParty P matchmakingType metadata).map Entry.fresh)
  refine ⟨?_, ?_, ?_⟩
  · have writes := Entry.draft_writes (e := e.modify fun P => { P with phase := .matchmaking })
      (Party.readable _)
    refine writes.record?_among (fun _ => rfl) [] [_, _, _] ?_ ks y
    exact List.forall_mem_cons.2 ⟨request.spares_create, List.forall_mem_cons.2
      ⟨players.spares_create, List.forall_mem_singleton.2 (Operation.spares_enqueue _)⟩⟩
  · have writes := Entry.draft_writes
      (e := .fresh (PartyRequest.ofParty P matchmakingType metadata now))
      (PartyRequest.readable proper)
    refine writes.record?_among (fun _ => rfl) [_] [_, _] ?_ ks y
    exact List.forall_mem_cons.2 ⟨party.spares_update, List.forall_mem_cons.2
      ⟨players.spares_create, List.forall_mem_singleton.2 (Operation.spares_enqueue _)⟩⟩
  · refine (Operation.record?_among [_, _]
      (List.forall_mem_singleton.2 (Operation.spares_enqueue _)) ks y).trans ?_
    refine (PlayerRequest.record?_ofParty P matchmakingType metadata _ y).trans ?_
    rw [Operation.record?_allEffects]
    exact List.forall_mem_cons.2 ⟨party.spares_update,
      List.forall_mem_singleton.2 request.spares_create⟩

/-- Who waits after a party has joined. -/
theorem waits_joining (now : Score) (queues : ks.Queues) :
    (Operation.allEffects ks (joining e matchmakingType metadata now)).Queues ∧
    ∀ q y score, (Operation.allEffects ks (joining e matchmakingType metadata now)).Waits q y score ↔
      if q = matchmakingType ∧ y = p then score = now else ks.Waits q y score := by
  have own : ({ e.record with phase := .matchmaking } : Party).id = p := loaded.id
  have spares : ∀ op ∈ (joining e matchmakingType metadata now).take 3,
      op.Spares Key.queueNamespace :=
    List.forall_mem_cons.2 ⟨(Operation.draftsOf_singleton _).spares_update,
      List.forall_mem_cons.2 ⟨(Operation.draftsOf_singleton _).spares_create,
        List.forall_mem_singleton.2 ((Operation.draftsOf_map id _).spares_create)⟩⟩
  have before := Operation.queues_allEffects spares queues
  refine ⟨before.editSet (fun _ agrees => agrees.insert _) matchmakingType, fun q y score => ?_⟩
  refine (Keyspace.waits_insert before matchmakingType _ q y score).trans ?_
  rw [Operation.waits_allEffects spares ks q y score, ← own]
  rfl

end

/-- A party that joins was nowhere and waits afterwards. -/
theorem enroll (h : Custody L) (idle : Idle i L) {e : Entry Party} {p : String} (loaded : e.Loaded p)
    {matchmakingType : String} {metadata : TextMap} {now : Score} (proper : now.ReadsBack)
    (needs : ∀ r ∈ Operation.allRequirements (joining e matchmakingType metadata now),
      r.Holds L.keyspace) :
    account.Keeps i L (Safe.committed L i (joining e matchmakingType metadata now)) := by
  obtain ⟨P, form⟩ : ∃ P : Party, P = { e.record with phase := .matchmaking } := ⟨_, rfl⟩
  obtain ⟨-, needs⟩ := Operation.holds_cons needs
  obtain ⟨noRequest, needs⟩ := Operation.holds_cons needs
  obtain ⟨noPlayers, -⟩ := Operation.holds_cons needs
  have absent : L.keyspace.record? PartyRequest p = none := by
    obtain rfl : Record.id e.record = p := loaded.id
    exact Keyspace.record?_of_absent (Operation.holds_create noRequest _ List.mem_cons_self)
  have fresh {x token : String} (member : P.members[x]? = some token) :
      L.keyspace.record? PlayerRequest x = none := by
    refine Keyspace.record?_of_absent (Operation.holds_create noPlayers
      (Entry.fresh (PlayerRequest.create x token matchmakingType metadata)).draft ?_)
    refine List.mem_map_of_mem (List.mem_map_of_mem (List.mem_map.2 ⟨(x, token), ?_, rfl⟩))
    rw [form] at member
    exact Std.ExtTreeMap.mem_toList_iff_getElem?_eq_some.2 member
  have nowhere := (h.orderly p).nowhere absent
  have records := record?_joining L.keyspace loaded matchmakingType metadata proper form
  have noDequeue : ∀ queue count,
      .dequeue queue count ∉ joining e matchmakingType metadata now := by simp [joining]
  have legible := legible_joining h.legible e matchmakingType metadata proper
  obtain ⟨queues, waits⟩ :=
    waits_joining L.keyspace loaded matchmakingType metadata now h.queues
  -- From here on only what the operations do matters.
  generalize joining e matchmakingType metadata now = ops at *
  have party (y : String) : (Safe.committed L i ops).keyspace.record? Party y = _ := (records y).1
  have request (y : String) : (Safe.committed L i ops).keyspace.record? PartyRequest y = _ :=
    (records y).2.1
  have player (y : String) : (Safe.committed L i ops).keyspace.record? PlayerRequest y = _ :=
    (records y).2.2
  have waits (q y : String) (score : Score) :
      (Safe.committed L i ops).keyspace.Waits q y score ↔ _ := waits q y score
  have held : (Safe.committed L i ops).held = L.held := idle.plain.held_committed
  have takes (j : Nat) (y : String) : (Safe.committed L i ops).Takes j y ↔ L.Takes j y := by
    by_cases same : j = i
    · subst same
      exact iff_of_false (idle.untaken_committed noDequeue y) (idle.untaken y)
    · exact Safe.takes_committed_of_ne same
  have only (place : Place) (there : (Safe.committed L i ops).At p place) : place = .waiting := by
    cases place with
    | waiting => rfl
    | taken j => exact absurd ((takes j p).1 there) (nowhere (.taken j))
    | held client =>
      have there : (client, p) ∈ L.held := by
        rw [← held]
        exact there
      exact absurd there (nowhere (.held client))
  refine h.keeps (· = p) ?_ queues legible ?_ ?_ ?_ ?_ (fun _ => Safe.calls_committed)
    fun _ => Safe.not_treats_committed
  · rintro _ rfl j - handles
    obtain ⟨r, stored⟩ := h.handled_stored handles
    exact absurd (stored.symm.trans absent) (by simp)
  · intro p' here
    subst here
    refine Orderly.of_kept ((request p').trans (if_pos rfl)) ⟨form ▸ loaded.id,
      (party p').trans (if_pos rfl), form ▸ rfl, ⟨.waiting, matchmakingType, now, ?_⟩,
      fun {queue score} there => ?_, fun {x} hx => ?_⟩ only
    · rw [waits, if_pos ⟨rfl, rfl⟩]
    · rw [waits] at there
      split at there
      next here => exact ⟨here.1, there⟩
      next => exact absurd ⟨queue, score, there⟩ (nowhere .waiting)
    · obtain ⟨token, member⟩ := Option.isSome_iff_exists.1
        (Std.ExtTreeMap.mem_iff_isSome_getElem?.1 hx)
      have member : P.members[x]? = some token := member
      refine ⟨.create x token matchmakingType metadata, ?_, ⟨rfl, rfl, rfl, rfl⟩, rfl, fun _ => rfl,
        fun client there => absurd (only (.held client) there) (by simp)⟩
      rw [player, member]
  · intro y other
    refine ⟨(request y).trans (if_neg other), fun Q _ => ?_, fun queue score => ?_,
      fun j => takes j y, fun client => by rw [held], fun r stored x hx => ?_⟩
    · rw [party, if_neg other]
    · exact (waits queue y score).trans (iff_of_eq (if_neg fun here => other here.2))
    · obtain ⟨pr, follows⟩ := ((h.orderly y).kept stored).player hx
      rw [player]
      split
      next token member => exact absurd (follows.stored.symm.trans (fresh member)) (by simp)
      next => rfl
  · intro x pr stored
    rw [player] at stored
    split at stored
    next => exact congrArg PlayerRequest.id (Option.some.inj stored).symm
    next => exact h.playerId stored
  · intro x pr stored ongoing
    rw [player] at stored
    split at stored
    next token member =>
      refine ⟨p, _, (request p).trans (if_pos rfl), ?_⟩
      exact Std.ExtTreeMap.mem_iff_isSome_getElem?.2 (Option.isSome_iff_exists.2 ⟨token, member⟩)
    next =>
      obtain ⟨q, r, there, listed⟩ := h.active stored ongoing
      refine ⟨q, r, (request q).trans ((if_neg ?_).trans there), listed⟩
      rintro rfl
      exact absurd (there.symm.trans absent) (by simp)

theorem queue_safe (idle : Idle i L) (player matchmakingType : String) (metadata : TextMap)
    {now : Score} (proper : now.ReadsBack) :
    Safe account i (Over i) (Gateway.join player matchmakingType metadata now) L := by
  unfold Gateway.join Parties.ofPlayer
  refine Safe.bind (Safe.bind (Safe.find idle.plain.settled (fun L₁ later ready => ?_)
    fun L₁ _ later ready => ⟨ready.inv, (idle.later later).untaken⟩))
  have idle := idle.later later
  cases L₁.keyspace.entry? Member player with
  | none => exact ⟨ready.inv, idle.untaken⟩
  | some m =>
    refine Safe.find idle.plain.settled (fun L₂ later ready => ?_)
      fun L₂ _ later ready => ⟨ready.inv, (idle.later later).untaken⟩
    have idle := idle.later later
    cases stored : L₂.keyspace.entry? Party m.record.party with
    | none => exact ⟨ready.inv, idle.untaken⟩
    | some e =>
      have loaded : e.Loaded m.record.party :=
        Keyspace.loaded_of_entry? stored (ready.known.partyId (Keyspace.record?_of_entry? stored))
      refine Safe.bind ?_
      cases Gateway.mayQueue e.record player with
      | error _ => exact ⟨ready.inv, idle.untaken⟩
      | ok _ =>
        refine after_over (commit_over idle (by simp) fun L' _ ready idle needs => ?_)
        exact ready.inv.enroll idle loaded proper needs

end Custody

end Matchmaking
