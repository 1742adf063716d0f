import Matchmaking.Proofs.Effects
import Matchmaking.Proofs.Whereabouts

/-!
# Assignments one after the other

A list of assignments with nobody else at work is carried out up to the first one that
cannot be (`Assigns`).  An assignment is applicable if the request and the party are
stored, the requests of the players can be read, and the queue is one that a party can go
back to.  Applied, it rewrites the value at each key on its own
(`Gateway.Assignment.rewrite`): the requests of the players, the party and its request, or
the queue.  One that is not applicable leaves the store alone.
-/

namespace Matchmaking

namespace Gateway

/-! ## What an assignment changes -/

namespace Decision

/-- What becomes of the request of a player. -/
def revise : Decision → PlayerRequest → PlayerRequest
  | matched id name => (·.assign id name)
  | requeued => (·.withState .requested)
  | error => (·.withState .error)

/-- The phase of a party that is done.  A party that waits again keeps its phase. -/
def phase? : Decision → Option Phase
  | matched _ _ => some .inGame
  | requeued => none
  | error => some .forming

theorem id_revise (d : Decision) (pr : PlayerRequest) : (d.revise pr).id = pr.id := by
  cases d <;> rfl

end Decision

namespace Assignment

/-- What becomes of the value at a key where a party with a request is assigned. -/
def rewrite (a : Assignment) (r : PartyRequest) (key : Key) (old : Option Value) : Option Value :=
  if key ∈ r.party.players.map (Key.entry PlayerRequest) then
    Value.revise a.decision.revise old
  else match a.decision.phase? with
    | some phase =>
      if key = .entry Party a.party then
        Value.revise (fun P : Party => { P with phase := phase }) old
      else if key = .entry PartyRequest a.party then none
      else old
    | none =>
      if key = .queue r.matchmakingType then Value.enqueue ⟨a.party, r.score⟩ old
      else old

/-- An assignment takes one store to another. -/
def Rewrites (a : Assignment) (r : PartyRequest) (ks ks' : Keyspace) : Prop :=
  ∀ key, ks'[key]? = a.rewrite r key ks[key]?

/-- Nothing stands in the way of an assignment of a party with a request. -/
structure Applicable (a : Assignment) (r : PartyRequest) (ks : Keyspace) : Prop where
  /-- The request is stored. -/
  request : ks.record? PartyRequest a.party = some r
  /-- The party is stored. -/
  party : ∃ P, ks.record? Party a.party = some P
  /-- The requests of the players can be read, those that there are. -/
  players : ∀ x ∈ r.party.players, ks.CanRead PlayerRequest x
  /-- There is a queue to go back to. -/
  queue : a.decision = .requeued → ∃ set, ks.sortedSetAt? (.queue r.matchmakingType) = some set

/-! ### Key by key -/

theorem player_apart {space : String} (apart : Key.Apart (Record.kind PlayerRequest) space)
    (ids : List String) (id : String) :
    Key.compose space id ∉ ids.map (Key.entry PlayerRequest) := by
  intro mem
  obtain ⟨x, -, same⟩ := List.mem_map.1 mem
  exact Key.compose_ne apart x id same

theorem rewrite_player (a : Assignment) (r : PartyRequest) (x : String) (old : Option Value) :
    a.rewrite r (.entry PlayerRequest x) old =
      if x ∈ r.party.players then Value.revise a.decision.revise old else old := by
  have listed : Key.entry PlayerRequest x ∈ r.party.players.map (Key.entry PlayerRequest) ↔
      x ∈ r.party.players := by
    simp only [List.mem_map, Key.entry_inj, exists_eq_right]
  have party (p : String) : Key.entry PlayerRequest x ≠ .entry Party p :=
    Key.compose_ne (by decide) x p
  have request (p : String) : Key.entry PlayerRequest x ≠ .entry PartyRequest p :=
    Key.compose_ne (by decide) x p
  have queue (q : String) : Key.entry PlayerRequest x ≠ .queue q :=
    Key.compose_ne (by decide) x q
  unfold rewrite
  cases a.decision.phase? <;> simp only [listed, party, request, queue, if_false]

theorem rewrite_party (a : Assignment) (r : PartyRequest) (p : String) (old : Option Value) :
    a.rewrite r (.entry Party p) old =
      match a.decision.phase? with
      | some phase =>
        if p = a.party then Value.revise (fun P : Party => { P with phase := phase }) old else old
      | none => old := by
  have player : Key.entry Party p ∉ r.party.players.map (Key.entry PlayerRequest) :=
    player_apart (by decide) _ p
  have request (q : String) : Key.entry Party p ≠ .entry PartyRequest q :=
    Key.compose_ne (by decide) p q
  have queue (q : String) : Key.entry Party p ≠ .queue q := Key.compose_ne (by decide) p q
  unfold rewrite
  cases a.decision.phase? <;> simp only [player, Key.entry_inj, request, queue, if_false]

theorem rewrite_request (a : Assignment) (r : PartyRequest) (p : String) (old : Option Value) :
    a.rewrite r (.entry PartyRequest p) old =
      if a.decision.phase?.isSome ∧ p = a.party then none else old := by
  have player : Key.entry PartyRequest p ∉ r.party.players.map (Key.entry PlayerRequest) :=
    player_apart (by decide) _ p
  have party (q : String) : Key.entry PartyRequest p ≠ .entry Party q :=
    Key.compose_ne (by decide) p q
  have queue (q : String) : Key.entry PartyRequest p ≠ .queue q :=
    Key.compose_ne (by decide) p q
  unfold rewrite
  cases a.decision.phase? <;>
    simp only [player, party, Key.entry_inj, queue, Option.isSome, Bool.false_eq_true, true_and,
      false_and, if_false]

theorem rewrite_queue (a : Assignment) (r : PartyRequest) (q : String) (old : Option Value) :
    a.rewrite r (.queue q) old =
      if a.decision.phase? = none ∧ q = r.matchmakingType then
        Value.enqueue ⟨a.party, r.score⟩ old
      else old := by
  have player : Key.queue q ∉ r.party.players.map (Key.entry PlayerRequest) :=
    player_apart (by decide) _ q
  have party (p : String) : Key.queue q ≠ .entry Party p := Key.compose_ne (by decide) q p
  have request (p : String) : Key.queue q ≠ .entry PartyRequest p :=
    Key.compose_ne (by decide) q p
  unfold rewrite
  cases a.decision.phase? <;>
    simp only [player, party, request, Key.queue_inj, reduceCtorEq, true_and, false_and, if_false]

end Assignment

end Gateway

namespace Keyspace

variable {α : Type} [Record α] {ks ks' : Keyspace} {id : String}

/-- A changed text describes the changed record. -/
theorem record?_of_revise {f : α → α} (readable : ∀ x, Readable (f x))
    (revised : ks'[Key.entry α id]? = Value.revise f ks[Key.entry α id]?) :
    ks'.record? α id = (ks.record? α id).map f := by
  cases found : ks.entry? α id with
  | none =>
    rw [record?_congr (revised.trans (Keyspace.revise_of_not_entry? found)), record?, found]
    rfl
  | some e =>
    obtain ⟨text, written, -, read⟩ := Entry.deserialize_serialize (e := e.modify f)
      (readable e.record)
    rw [record?_of_text (revised.trans (Keyspace.revise_of_entry? found written)) read,
      record?_of_entry? found]
    rfl

end Keyspace

namespace Gateway

namespace Assignment.Rewrites

variable {a : Assignment} {r : PartyRequest} {ks ks' : Keyspace} (h : a.Rewrites r ks ks')

include h

theorem player (x : String) : ks'.record? PlayerRequest x =
    if x ∈ r.party.players then (ks.record? PlayerRequest x).map a.decision.revise
    else ks.record? PlayerRequest x := by
  have value := (h (.entry PlayerRequest x)).trans (a.rewrite_player r x _)
  split at value
  next listed =>
    rw [if_pos listed]
    exact Keyspace.record?_of_revise (fun _ => PlayerRequest.readable _) value
  next other =>
    rw [if_neg other]
    exact Keyspace.record?_congr value

theorem party (p : String) : ks'.record? Party p =
    match a.decision.phase? with
    | some phase =>
      if p = a.party then (ks.record? Party p).map fun P => { P with phase := phase }
      else ks.record? Party p
    | none => ks.record? Party p := by
  have value := (h (.entry Party p)).trans (a.rewrite_party r p _)
  cases done : a.decision.phase? with
  | none =>
    rw [done] at value
    exact Keyspace.record?_congr value
  | some phase =>
    rw [done] at value
    dsimp only at value ⊢
    split at value
    next own =>
      rw [if_pos own]
      exact Keyspace.record?_of_revise (fun _ => Party.readable _) value
    next other =>
      rw [if_neg other]
      exact Keyspace.record?_congr value

theorem request (p : String) : ks'.record? PartyRequest p =
    if a.decision.phase?.isSome ∧ p = a.party then none else ks.record? PartyRequest p := by
  have value := (h (.entry PartyRequest p)).trans (a.rewrite_request r p _)
  split at value
  next gone =>
    rw [if_pos gone]
    exact Keyspace.record?_of_absent value
  next kept =>
    rw [if_neg kept]
    exact Keyspace.record?_congr value

/-- A queue that is shown is shown, with the party in it if the party goes back to it. -/
theorem queue {q : String} {set : SortedSet} (shown : ks.sortedSetAt? (.queue q) = some set) :
    ks'.sortedSetAt? (.queue q) = some (if a.decision.phase? = none ∧ q = r.matchmakingType then
      set.insert ⟨a.party, r.score⟩ else set) := by
  have value := (h (.queue q)).trans (a.rewrite_queue r q _)
  split at value
  next back =>
    rw [Keyspace.enqueue_of_shown shown] at value
    rw [if_pos back, Keyspace.sortedSetAt?, value]
  next elsewhere =>
    rw [if_neg elsewhere]
    exact (Keyspace.sortedSetAt?_congr value).trans shown

/-- Other parties wait as before. -/
theorem waits_of_ne {q p : String} {score : Score} (other : p ≠ a.party)
    (waits : ks.Waits q p score) : ks'.Waits q p score := by
  obtain ⟨set, shown, there⟩ := waits
  refine ⟨_, h.queue shown, ?_⟩
  split
  · simp [Ne.symm other, there]
  · exact there

end Assignment.Rewrites

/-- Requests and parties are stored under their own ids. -/
structure Filed (ks : Keyspace) : Prop where
  requests : ks.OwnIds PartyRequest
  parties : ks.OwnIds Party
  players : ks.OwnIds PlayerRequest

theorem Filed.rewritten {a : Assignment} {r : PartyRequest} {ks ks' : Keyspace} (h : Filed ks)
    (changes : a.Rewrites r ks ks') : Filed ks' := by
  obtain ⟨requests, parties, players⟩ := h
  rw [Keyspace.ownIds_iff] at requests parties players
  refine ⟨Keyspace.ownIds_iff.2 fun p x stored => ?_, Keyspace.ownIds_iff.2 fun p P stored => ?_,
    Keyspace.ownIds_iff.2 fun x pr stored => ?_⟩
  · rw [changes.request] at stored
    split at stored
    · contradiction
    · exact requests p x stored
  · rw [changes.party] at stored
    split at stored
    · split at stored
      · obtain ⟨old, before, rfl⟩ := Option.map_eq_some_iff.1 stored
        exact parties p old before
      · exact parties p P stored
    · exact parties p P stored
  · rw [changes.player] at stored
    split at stored
    · obtain ⟨old, before, rfl⟩ := Option.map_eq_some_iff.1 stored
      exact (a.decision.id_revise old).trans (players x old before)
    · exact players x pr stored

/-! ## What its transaction does -/

/-- A party that is done is concluded, any other is put back. -/
theorem Decision.operations_eq (d : Decision) (e : Entry PartyRequest) (P : Entry Party)
    (players : List (Entry PlayerRequest)) :
    d.operations e P players = match d.phase? with
      | some phase => Custody.concluding players d.revise P phase e
      | none => [Custody.updating players d.revise, .enqueue [e.queuePlace]] := by
  cases d <;> rfl

section

variable {a : Assignment} {e : Entry PartyRequest} {P : Entry Party} {ks : Keyspace}
  (filed : Filed ks)

include filed

/-- The first operation changes the requests of the players. -/
theorem getElem?_updating (key : Key) :
    ((Custody.updating (ks.stored PlayerRequest e.record.party.players) a.decision.revise).effect
      ks)[key]? =
      if key ∈ e.record.party.players.map (Key.entry PlayerRequest) then
        Value.revise a.decision.revise ks[key]?
      else ks[key]? :=
  Keyspace.getElem?_update_stored filed.players a.decision.id_revise (fun _ => ⟨_, rfl⟩)
    (fun _ _ => rfl) key

variable (request : ks.entry? PartyRequest a.party = some e)

include request

/-- A party that is done is changed, and its request goes. -/
theorem rewrites_concluding (party : ks.entry? Party a.party = some P) {phase : Phase}
    (done : a.decision.phase? = some phase) :
    a.Rewrites e.record ks (Operation.allEffects ks (Custody.concluding
      (ks.stored PlayerRequest e.record.party.players) a.decision.revise P phase e)) := by
  intro key
  have ownRequest : e.id = a.party := filed.requests _ e request
  have ownParty : P.id = a.party := filed.parties _ P party
  have first := getElem?_updating (a := a) (e := e) filed key
  -- The three operations write different keys, so each meets what was there before.
  let mid := (Custody.updating (ks.stored PlayerRequest e.record.party.players)
    a.decision.revise).effect ks
  have same : mid[Key.entry Party a.party]? = ks[Key.entry Party a.party]? :=
    Operation.getElem?_effect (Custody.updating_spares (by decide) a.party) ks
  have second := Keyspace.getElem?_update_entry party (f := fun P => { P with phase := phase })
    ownParty ⟨_, rfl⟩ same key
  refine (Keyspace.getElem?_erase _ (.entry PartyRequest e.id) key).trans ?_
  rw [ownRequest]
  by_cases gone : key = .entry PartyRequest a.party
  · rw [if_pos gone.symm, gone, Assignment.rewrite_request, done, if_pos ⟨rfl, rfl⟩]
  rw [if_neg (Ne.symm gone)]
  refine second.trans ?_
  by_cases changed : key = .entry Party a.party
  · rw [if_pos changed, changed, Assignment.rewrite_party, done, same]
    exact (if_pos rfl).symm
  rw [if_neg changed]
  refine first.trans ?_
  rw [Assignment.rewrite, done]
  dsimp only
  rw [if_neg changed, if_neg gone]

/-- A party that waits again is put into its queue. -/
theorem rewrites_requeuing (waits : a.decision.phase? = none) :
    a.Rewrites e.record ks (Operation.allEffects ks
      [Custody.updating (ks.stored PlayerRequest e.record.party.players) a.decision.revise,
        .enqueue [e.queuePlace]]) := by
  intro key
  have own : e.id = a.party := filed.requests _ e request
  have first := getElem?_updating (a := a) (e := e) filed key
  by_cases queue : key = .queue e.record.matchmakingType
  · have same : ((Custody.updating (ks.stored PlayerRequest e.record.party.players)
        a.decision.revise).effect ks)[Key.queue e.record.matchmakingType]? =
          ks[Key.queue e.record.matchmakingType]? :=
      Operation.getElem?_effect (Custody.updating_spares (by decide) _) ks
    rw [queue, Assignment.rewrite_queue, if_pos ⟨waits, rfl⟩, ← own]
    exact (Keyspace.getElem?_editSet_insert _ _ _).trans (congrArg (Value.enqueue _) same)
  · rw [Assignment.rewrite, waits]
    dsimp only
    rw [if_neg queue]
    exact (Keyspace.getElem?_editSet_of_ne (Ne.symm queue)).trans first

/-- The operations of an assignment rewrite the value at each key. -/
theorem rewrites_operations (party : ks.entry? Party a.party = some P) :
    a.Rewrites e.record ks (Operation.allEffects ks
      (a.decision.operations e P (ks.stored PlayerRequest e.record.party.players))) := by
  rw [Decision.operations_eq]
  cases done : a.decision.phase? with
  | none => exact rewrites_requeuing filed request done
  | some phase => exact rewrites_concluding filed request party done

/-- An assignment has read what it changes. -/
theorem holds_operations (party : ks.entry? Party a.party = some P) :
    ∀ r ∈ Operation.allRequirements
      (a.decision.operations e P (ks.stored PlayerRequest e.record.party.players)),
      r.Holds ks := by
  have players := Keyspace.holds_update_stored filed.players a.decision.id_revise
    e.record.party.players
  rw [Decision.operations_eq]
  cases a.decision.phase? with
  | none => exact List.forall_mem_append.2 ⟨players, List.forall_mem_nil _⟩
  | some phase =>
    obtain ⟨present, unchanged⟩ := Keyspace.unchanged_of_entry? party
      (d := (P.modify fun P => { P with phase := phase }).draft)
      (congrArg (Key.entry Party) (filed.parties _ P party)) rfl
    obtain ⟨present', unchanged'⟩ := Keyspace.unchanged_of_entry? request (d := e.draft)
      (congrArg (Key.entry PartyRequest) (filed.requests _ e request)) rfl
    intro r hr
    rcases List.mem_append.1 hr with updated | hr
    · exact players r updated
    · change r ∈ [Requirement.present _, .unchanged _, .present _, .unchanged _] at hr
      simp only [List.mem_cons, List.not_mem_nil, or_false] at hr
      rcases hr with rfl | rfl | rfl | rfl
      · exact present
      · exact unchanged
      · exact present'
      · exact unchanged'

end

/-- All records that an assignment writes have texts. -/
theorem stageable_operations (d : Decision) (e : Entry PartyRequest) (P : Entry Party)
    (players : List (Entry PlayerRequest)) (settings : Settings) :
    ∀ op ∈ d.operations e P players, op.Stageable settings := by
  have texts : (Custody.updating players d.revise).Stageable settings :=
    List.forall_mem_map.2 fun _ _ => ⟨_, rfl⟩
  intro op hop
  rw [Decision.operations_eq] at hop
  split at hop
  · simp only [Custody.concluding, List.mem_cons, List.not_mem_nil, or_false] at hop
    rcases hop with rfl | rfl | rfl
    · exact texts
    · exact List.forall_mem_singleton.2 ⟨_, rfl⟩
    · exact trivial
  · rcases List.mem_pair.1 hop with rfl | rfl
    · exact texts
    · exact trivial

/-- An assignment fits unless the party is to go back to something that is no queue. -/
theorem firstMismatch_operations (d : Decision) (e : Entry PartyRequest) (P : Entry Party)
    (players : List (Entry PlayerRequest)) (ks : Keyspace) :
    Keyspace.firstMismatch ks.types (Operation.allCommands (d.operations e P players)) =
      if d.phase? = none ∧ ks.sortedSetAt? (.queue e.record.matchmakingType) = none then
        some (.queue e.record.matchmakingType, .sortedSet)
      else none := by
  have untyped : ∀ c ∈ (Custody.updating players d.revise).commands,
      Keyspace.requiredType c = none := fun _ => Operation.requiredType_of_writeCommands
  rw [Decision.operations_eq]
  cases d.phase? with
  | none =>
    have apart : ∀ c ∈ (Custody.updating players d.revise).commands,
        c.key ≠ .queue e.record.matchmakingType := fun c hc here =>
      Custody.updating_spares (by decide) e.record.matchmakingType
        (here ▸ Operation.key_mem_keys hc)
    have fits : Keyspace.firstMismatch ks.types ((Custody.updating players d.revise).commands ++
        [.addMember (.queue e.record.matchmakingType) e.place]) = _ :=
      Keyspace.firstMismatch_addMember untyped apart
    refine fits.trans ?_
    cases ks.sortedSetAt? (.queue e.record.matchmakingType) <;> rfl
  | some phase =>
    refine Keyspace.firstMismatch_untyped ks.types (List.forall_mem_append.2 ⟨untyped,
      List.forall_mem_append.2 ⟨fun _ => Operation.requiredType_of_writeCommands, ?_⟩⟩)
    exact List.forall_mem_singleton.2 rfl

/-! ## Carrying out assignments -/

/-- What one assignment ends with: it is applied, or it is not applicable and leaves the
store alone. -/
def Assigned (a : Assignment) (ks : Keyspace) (result : Except GatewayError Unit)
    (ks' : Keyspace) : Prop :=
  match result with
  | .ok _ => ∃ r, a.Applicable r ks ∧ a.Rewrites r ks ks'
  | .error _ => ks' = ks ∧ ∀ r, ¬ a.Applicable r ks

/-- The transaction of an assignment whose request and party were read. -/
theorem transact_solo {ks : Keyspace} (settings : Settings) (filed : Filed ks) {a : Assignment}
    {e : Entry PartyRequest} {P : Entry Party} (request : ks.entry? PartyRequest a.party = some e)
    (party : ks.entry? Party a.party = some P)
    (players : ∀ x ∈ e.record.party.players, ks.CanRead PlayerRequest x) :
    Procedure.Solo settings (Assigned a ks) (do
      let _ ← Call.commit "assign_deployments" .alreadyExists (Client.transact
        (a.decision.operations e P (ks.stored PlayerRequest e.record.party.players)))) ks := by
  have stored := Keyspace.record?_of_entry? request
  have goesBack : a.decision = .requeued ↔ a.decision.phase? = none := by
    cases a.decision <;> simp [Decision.phase?]
  refine .bind (.mapError (.transact (stageable_operations _ e P _ settings)
    (fun fails => absurd (holds_operations filed request party) fails)
    (fun _ key type misfit => ⟨rfl, fun r applicable => ?_⟩) fun _ fits _ => .done ?_))
  · obtain rfl := Option.some.inj (stored.symm.trans applicable.request)
    rw [firstMismatch_operations] at misfit
    split at misfit
    next noQueue =>
      obtain ⟨set, shown⟩ := applicable.queue (goesBack.2 noQueue.1)
      rw [noQueue.2] at shown
      contradiction
    next => contradiction
  · refine ⟨e.record, ⟨stored, ⟨_, Keyspace.record?_of_entry? party⟩, players, fun waits => ?_⟩,
      rewrites_operations filed request party⟩
    rw [firstMismatch_operations] at fits
    split at fits
    next => contradiction
    next fit =>
      exact Option.ne_none_iff_exists'.1 fun none => fit ⟨goesBack.1 waits, none⟩

theorem assignOne_solo {ks : Keyspace} (settings : Settings) (filed : Filed ks) (a : Assignment) :
    Procedure.Solo settings (Assigned a ks) (assignOne a) ks := by
  unfold assignOne
  refine .bind (.getOr (fun e request => ?_) fun nothing fault => ⟨rfl, fun r applicable => ?_⟩)
  · refine .bind (.getOr (fun P party => ?_) fun nothing fault => ⟨rfl, fun r applicable => ?_⟩)
    · refine .bind (.getStored (fun players => ?_) fun x hx fault unreadable =>
        ⟨rfl, fun r applicable => ?_⟩)
      · exact transact_solo settings filed request party players
      · have stored := Keyspace.record?_of_entry? request
        obtain rfl := Option.some.inj (stored.symm.trans applicable.request)
        obtain ⟨found, read⟩ := applicable.players x hx
        rw [read] at unreadable
        contradiction
    · obtain ⟨P, stored⟩ := applicable.party
      rw [nothing] at stored
      contradiction
  · have stored := applicable.request
    rw [nothing] at stored
    contradiction

/-- Assignments applied in order take one store to another. -/
inductive Applied : List Assignment → Keyspace → Keyspace → Prop where
  | nil {ks : Keyspace} : Applied [] ks ks
  | cons {a : Assignment} {as : List Assignment} {r : PartyRequest} {ks mid ks' : Keyspace}
    (applicable : a.Applicable r ks) (changes : a.Rewrites r ks mid) (rest : Applied as mid ks') :
    Applied (a :: as) ks ks'

/-- What a list of assignments ends with: all of them are applied, or only those in front
of the first one that is not applicable. -/
def Assigns (as : List Assignment) (ks : Keyspace) (result : Except GatewayError Unit)
    (ks' : Keyspace) : Prop :=
  match result with
  | .ok _ => Applied as ks ks'
  | .error _ => ∃ done a rest, as = done ++ a :: rest ∧ Applied done ks ks' ∧
    ∀ r, ¬ a.Applicable r ks'

theorem assign_solo {ks : Keyspace} (settings : Settings) (filed : Filed ks)
    (as : List Assignment) : Procedure.Solo settings (Assigns as ks) (assign as) ks := by
  induction as generalizing ks with
  | nil => exact .done .nil
  | cons a as ih =>
    unfold assign
    refine .bind ((assignOne_solo settings filed a).mono fun result mid ended => ?_)
    cases result with
    | error fault =>
      obtain ⟨rfl, inapplicable⟩ := ended
      exact ⟨[], a, as, rfl, .nil, inapplicable⟩
    | ok _ =>
      obtain ⟨r, applicable, changes⟩ := ended
      refine (ih (filed.rewritten changes)).mono fun result ks' rest => ?_
      cases result with
      | ok _ => exact .cons applicable changes rest
      | error fault =>
        obtain ⟨done, b, later, rfl, applied, inapplicable⟩ := rest
        exact ⟨a :: done, b, later, rfl, .cons applicable changes applied, inapplicable⟩

/-- Calls leave entries under their own ids. -/
theorem Filed.of_custody {L : Ledger} (custody : Custody L) (agreed : Membership L.keyspace) :
    Filed L.keyspace where
  requests := Keyspace.ownIds_iff.2 fun p _ stored => ((custody.orderly p).kept stored).id
  parties := Keyspace.ownIds_iff.2 fun _ _ stored => agreed.partyId stored
  players := Keyspace.ownIds_iff.2 fun _ _ stored => custody.playerId stored

/-- A party with a request can be assigned. -/
theorem Assignment.Applicable.of_custody {L : Ledger} (custody : Custody L) {a : Assignment}
    {r : PartyRequest} (stored : L.keyspace.record? PartyRequest a.party = some r) :
    a.Applicable r L.keyspace where
  request := stored
  party := ⟨r.party, ((custody.orderly a.party).kept stored).party⟩
  players x hx := by
    obtain ⟨e, found, -⟩ := custody.entry?_player stored (Custody.mem_players.1 hx)
    exact Keyspace.canRead_of_entry? found
  queue _ := by
    obtain ⟨set, shown, -⟩ := custody.queues r.matchmakingType
    exact ⟨set, shown⟩

/-- A first assignment that is applicable is applied, and the others come after it. -/
theorem Assigns.head {a : Assignment} {as : List Assignment} {r : PartyRequest} {ks ks' : Keyspace}
    {result : Except GatewayError Unit} (ends : Assigns (a :: as) ks result ks')
    (first : a.Applicable r ks) : ∃ mid, a.Rewrites r ks mid ∧ Assigns as mid result ks' := by
  cases result with
  | ok u =>
    cases ends with
    | cons applicable changes rest =>
      obtain rfl := Option.some.inj (applicable.request.symm.trans first.request)
      exact ⟨_, changes, rest⟩
  | error e =>
    obtain ⟨done, c, rest, split, applied, inapplicable⟩ := ends
    cases applied with
    | nil =>
      obtain rfl := (List.cons.inj split).1
      exact absurd first (inapplicable r)
    | cons applicable changes later =>
      obtain ⟨rfl, behind⟩ := List.cons.inj split
      obtain rfl := Option.some.inj (applicable.request.symm.trans first.request)
      exact ⟨_, changes, _, c, rest, behind, later, inapplicable⟩

end Gateway

end Matchmaking
