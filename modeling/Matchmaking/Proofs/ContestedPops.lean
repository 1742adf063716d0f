import Matchmaking.Proofs.Effects

/-!
# Pops amid other clients

A pop of a queue is not one step.  It takes members off the queue, loads their requests
and those of their players, and sets the players to matching in one commit that goes
through only if nothing it loaded has changed.  Between any two of these requests other
clients may rewrite, delete or retype what the pop has loaded, and may use the queue.

As long as they leave the popped members and the type of the queue alone
(`Considerate`), a pop does all of it or nothing.
-/

namespace Matchmaking

open Exchange

/-- A member is at a score after some are put into a set if they agree on the score, and
one of them is the member or the set had it at that score. -/
theorem SortedSet.score?_insertAll_of {members : List ScoredMember} {y : String} {score : Score}
    (agree : ∀ a ∈ members, a.member = y → a.score = score) {t : SortedSet}
    (there : y ∈ members.map (·.member) ∨ t.score? y = some score) :
    (members.foldl SortedSet.insert t).score? y = some score := by
  induction members generalizing t with
  | nil => exact there.resolve_left List.not_mem_nil
  | cons a members ih =>
    obtain ⟨here, rest⟩ := List.forall_mem_cons.1 agree
    refine ih rest ?_
    rw [score?_insert]
    by_cases same : a.member = y
    · rw [if_pos same, here same]
      exact .inr rfl
    · rw [if_neg same]
      refine there.imp_left fun among => ?_
      exact (List.mem_cons.1 among).resolve_left fun first => same first.symm

/-! ## Other clients -/

/-- The store after some batches. -/
def Keyspace.executeAll (ks : Keyspace) (batches : List Batch) : Keyspace :=
  batches.foldl (fun ks b => (ks.execute b).2) ks

/-- Other clients execute some batches.  They may do anything, but the queue stays a
sorted set or absent, members that were popped wait in it exactly if they did before,
and stored entries have the ids that they are stored under. -/
structure Considerate (queue : String) (m : Moment) (ks : Keyspace) : Prop where
  /-- The store is what some batches make of it. -/
  batches : ∃ batches, ks = m.keyspace.executeAll batches
  /-- The queue is a sorted set or absent. -/
  shown : ∃ set, ks.sortedSetAt? (.queue queue) = some set
  /-- Popped members are not touched. -/
  untouched : ∀ a ∈ m.handed, ∀ score,
    ks.Waits queue a.member score ↔ m.keyspace.Waits queue a.member score
  /-- Parties' requests are stored under their ids. -/
  parties : ks.OwnIds PartyRequest
  /-- Players' requests are stored under their ids. -/
  players : ks.OwnIds PlayerRequest

variable {queue : String} {m last : Moment} {ks after : Keyspace} {trace : List Exchange}

/-- The others may do nothing. -/
theorem Considerate.stay (shown : ∃ set, m.keyspace.sortedSetAt? (.queue queue) = some set)
    (ids : m.keyspace.OwnIds PartyRequest ∧ m.keyspace.OwnIds PlayerRequest) :
    Considerate queue m m.keyspace :=
  ⟨⟨[], rfl⟩, shown, fun _ _ _ => Iff.rfl, ids.1, ids.2⟩

theorem Keyspace.WellFormed.executeAll (h : ks.WellFormed) (batches : List Batch) :
    (ks.executeAll batches).WellFormed := by
  induction batches generalizing ks with
  | nil => exact h
  | cons b batches ih => exact ih (h.execute b)

theorem Considerate.wellFormed (h : Considerate queue m ks) (start : m.keyspace.WellFormed) :
    ks.WellFormed := by
  obtain ⟨batches, rfl⟩ := h.batches
  exact start.executeAll batches

theorem Answered.wellFormed {r : Request} {answer : r.Answer} (h : Answered ks r answer after)
    (wellFormed : ks.WellFormed) : after.WellFormed := by
  cases r with
  | execute batch =>
    obtain ⟨-, rfl⟩ := h.execute_inv
    exact wellFormed.execute batch
  | _ =>
    cases h with
    | serve c store calm => exact store ▸ wellFormed

namespace Procedure.Amid

variable {ε α : Type} {p : Procedure ε α} {result : Except ε α}

theorem wellFormed (run : Amid (Considerate queue) m p result trace last)
    (start : m.keyspace.WellFormed) : last.keyspace.WellFormed :=
  run.invariant (fun _ _ _ others => others.wellFormed) (fun x hx => (run.answered x hx).wellFormed)
    start

/-- Members that a call was handed wait where they did as long as the call leaves the
queue alone. -/
theorem waits (run : Amid (Considerate queue) m p result trace last)
    (spared : ∀ x ∈ trace, x.after[Key.queue queue]? = x.before[Key.queue queue]?)
    {a : ScoredMember} (ha : a ∈ m.handed) (score : Score) :
    last.keyspace.Waits queue a.member score ↔ m.keyspace.Waits queue a.member score := by
  refine run.invariant
    (P := fun ks => ks.Waits queue a.member score ↔ m.keyspace.Waits queue a.member score)
    (fun m' ks kept others waits => ?_) (fun x hx waits => ?_) Iff.rfl
  · exact (others.untouched a (kept ha) score).trans waits
  · exact (Keyspace.waits_congr (spared x hx) _ _).trans waits

end Procedure.Amid

/-! ## What leaves queues alone -/

namespace Exchange

/-- No queue changes, and nothing is popped. -/
structure SparesQueues (x : Exchange) : Prop where
  same : ∀ queue, x.after[Key.queue queue]? = x.before[Key.queue queue]?
  popped : x.popped = []

theorem Idle.sparesQueues {x : Exchange} (h : x.Idle) : x.SparesQueues :=
  ⟨fun queue => by rw [h.same], h.popped⟩

/-- Only a dequeue pops members. -/
theorem popped_committing {ops : List Operation} (none : ∀ queue count, .dequeue queue count ∉ ops)
    (ks : Keyspace) : (committing ops ks).popped = [] := by
  have received := Operation.received_of_no_dequeue none ks
  refine List.flatMap_eq_nil_iff.2 fun reply mem => ?_
  have ids := List.flatMap_eq_nil_iff.1 received reply mem
  cases reply with
  | done => rfl
  | popped members => exact List.map_eq_nil_iff.1 ids

theorem sparesQueues_committing {ops : List Operation}
    (spares : ∀ op ∈ ops, op.Spares Key.queueNamespace) (ks : Keyspace) :
    (committing ops ks).SparesQueues :=
  ⟨Operation.getElem?_allEffects spares ks,
    popped_committing (Operation.no_dequeue_of_spares spares) ks⟩

/-- An operation that writes one key changes no other. -/
theorem within_committing {op : Operation} {key : Key} (keys : op.keys = [key])
    (ks : Keyspace) : (committing [op] ks).Within key := by
  intro k other
  refine Operation.getElem?_effect (fun mem => other ?_) ks
  rw [keys] at mem
  exact List.mem_singleton.1 mem

/-- Putting members into a queue writes no texts. -/
theorem writesText_enqueueMembers (queue : String) (members : List ScoredMember) (ks : Keyspace) :
    (committing [.enqueueMembers queue members] ks).request.writesText = false := by
  change (Operation.allCommands [.enqueueMembers queue members]).any _ = false
  rw [Operation.allCommands_enqueueMembers, List.any_map]
  exact List.any_eq_false.2 fun a _ => Bool.false_ne_true

end Exchange

/-! ## Attempts -/

/-- Some exchanges ask for texts to be written at most so often and leave queues alone.
Unless they succeed they change nothing. -/
structure Tried (attempts : Nat) (success : Prop) (trace : List Exchange) : Prop where
  bounded : textWrites trace ≤ attempts
  spares : ∀ x ∈ trace, x.SparesQueues
  failed : ¬ success → ∀ x ∈ trace, x.Idle

namespace Tried

variable {attempts more : Nat} {success success' : Prop} {later : List Exchange}

theorem looks (looks : ∀ x ∈ trace, x.Looks) : Tried 0 success trace where
  bounded := (textWrites_looks looks).le
  spares x hx := (looks x hx).idle.sparesQueues
  failed _ x hx := (looks x hx).idle

/-- Exchanges that come to nothing unless later ones succeed. -/
theorem append (h : Tried attempts success' trace) (rest : Tried more success later)
    (both : success' → success) : Tried (attempts + more) success (trace ++ later) where
  bounded := by
    rw [textWrites_append]
    exact Nat.add_le_add h.bounded rest.bounded
  spares := List.forall_mem_append.2 ⟨h.spares, rest.spares⟩
  failed failure := List.forall_mem_append.2 ⟨h.failed (mt both failure), rest.failed failure⟩

theorem mono (h : Tried attempts success trace) (le : attempts ≤ more) :
    Tried more success trace :=
  ⟨h.bounded.trans le, h.spares, h.failed⟩

theorem congr (h : Tried attempts success trace) (same : success ↔ success') :
    Tried attempts success' trace :=
  ⟨h.bounded, h.spares, fun failure => h.failed (mt same.1 failure)⟩

end Tried

namespace Commits

variable {others : Moment → Keyspace → Prop} {id : Nat} {settings : Settings}
  {ops : List Operation} {result : Except StoreError Commit}

theorem idle {e : StoreError} (h : Commits others m id settings ops (.error e) trace last) :
    ∀ x ∈ trace, x.Idle := by
  cases h with
  | unstaged bad => exact List.forall_mem_nil _
  | refused gap misfits idle => exact List.forall_mem_singleton.2 idle

/-- A commit of operations that leave queues alone makes at most one request. -/
theorem tried (h : Commits others m id settings ops result trace last)
    (spares : ∀ op ∈ ops, op.Spares Key.queueNamespace) :
    Tried 1 (∃ commit, result = .ok commit) trace where
  bounded := by
    refine List.countP_le_length.trans ?_
    cases h with
    | unstaged | nothing => exact Nat.zero_le 1
    | refused | accepted => exact Nat.le_refl 1
  spares := by
    cases h with
    | unstaged | nothing => exact List.forall_mem_nil _
    | refused gap misfits idle => exact List.forall_mem_singleton.2 idle.sparesQueues
    | accepted gap staged holds fits =>
      exact List.forall_mem_singleton.2 (sparesQueues_committing spares _)
  failed failure := by
    cases result with
    | ok commit => exact absurd ⟨commit, rfl⟩ failure
    | error e => exact h.idle

end Commits

/-! ## Setting players to matching -/

namespace Gateway

/-- The update that sets players' requests to matching. -/
def matchingUpdate (players : List (Entry PlayerRequest)) : Operation :=
  .update (players.map fun e => (e.modify (·.withState .matching)).draft)

/-- In one exchange some players' requests are set to matching, each of which is still
stored as the text that it was loaded from. -/
structure SetsMatching (players : List (Entry PlayerRequest)) (x : Exchange) : Prop where
  /-- The text right before the exchange describes the request that was loaded. -/
  current : ∀ e ∈ players, ∃ text, x.before[e.key]? = some (.string text) ∧
    Entry.deserialize text = .ok e
  /-- The text right after it is that of the same request as matching. -/
  matching : ∀ e ∈ players,
    x.after[e.key]? = some (.string (e.record.withState .matching).toJson.print)
  /-- No other key changes. -/
  others : ∀ key, (∀ e ∈ players, e.key ≠ key) → x.after[key]? = x.before[key]?

/-- The exchanges that set the players of some requests to matching.  Attempts that
change nothing come first.  In the last one the players' requests are loaded and then
set to matching, unless there are none. -/
inductive SetToMatching (requests : List (Entry PartyRequest)) : List Exchange → Prop where
  | nobody {reads : List Exchange} {opened : Exchange}
      (loads : Reads PlayerRequest (requests.flatMap (·.record.party.players)) [] reads)
      (looks : opened.Looks) : SetToMatching requests (reads ++ [opened])
  | commit {players : List (Entry PlayerRequest)} {reads : List Exchange} {opened x : Exchange}
      (loads : Reads PlayerRequest (requests.flatMap (·.record.party.players)) players reads)
      (looks : opened.Looks) (sets : SetsMatching players x) :
      SetToMatching requests (reads ++ [opened, x])
  | again {attempt later : List Exchange} (idle : ∀ x ∈ attempt, x.Idle)
      (rest : SetToMatching requests later) : SetToMatching requests (attempt ++ later)

/-- Some attempts to set the players of requests to matching. -/
structure Attempted (requests : List (Entry PartyRequest)) (attempts : Nat) (success : Prop)
    (trace : List Exchange) : Prop extends Tried attempts success trace where
  succeeded : success → SetToMatching requests trace

namespace Attempted

variable {requests : List (Entry PartyRequest)} {attempts more : Nat} {success success' : Prop}
  {later : List Exchange}

theorem congr (h : Attempted requests attempts success trace) (same : success ↔ success') :
    Attempted requests attempts success' trace :=
  ⟨h.toTried.congr same, fun success => h.succeeded (same.2 success)⟩

theorem mono (h : Attempted requests attempts success trace) (le : attempts ≤ more) :
    Attempted requests more success trace :=
  ⟨h.toTried.mono le, h.succeeded⟩

/-- A failed attempt in front of others. -/
theorem again (h : Attempted requests 1 success' trace) (failed : ¬ success')
    (rest : Attempted requests attempts success later) :
    Attempted requests (attempts + 1) success (trace ++ later) where
  toTried := Nat.add_comm 1 attempts ▸ h.toTried.append rest.toTried fun made => absurd made failed
  succeeded success := .again (h.failed failed) (rest.succeeded success)

end Attempted

/-- Popped parties are taken over. -/
structure TakenOver (ids : List String) (result : Except GatewayError (List (Entry PartyRequest)))
    (trace : List Exchange) : Prop
    extends Tried matchingAttempts (∃ requests, result = .ok requests) trace where
  succeeded : ∀ requests, result = .ok requests → ∃ loads rest, trace = loads ++ rest ∧
    Reads PartyRequest ids requests loads ∧ SetToMatching requests rest

/-- Requests that pass the check of the update are still stored as they were loaded. -/
theorem current_of_holds {players : List (Entry PlayerRequest)}
    (loaded : ∀ e ∈ players, ∃ id, e.Loaded id)
    (holds : ∀ r ∈ Operation.allRequirements [matchingUpdate players], r.Holds ks) :
    ∀ e ∈ players, ∃ text, ks[e.key]? = some (.string text) ∧ Entry.deserialize text = .ok e := by
  intro e he
  have needs : ∀ r ∈ (matchingUpdate players).requirements, r.Holds ks :=
    (Operation.holds_cons holds).1
  obtain ⟨id, -, text, previous, read⟩ := loaded e he
  have unchanged := Operation.holds_update needs _ (List.mem_map_of_mem he)
  refine ⟨text, ?_, read⟩
  change ks[e.key]? = some (.string (e.previous.getD "")) at unchanged
  rw [unchanged, previous]
  rfl

/-- The update goes through only if all requests are still stored as they were loaded. -/
theorem setsMatching_committing {players : List (Entry PlayerRequest)}
    (loaded : ∀ e ∈ players, ∃ id, e.Loaded id)
    (holds : ∀ r ∈ Operation.allRequirements [matchingUpdate players], r.Holds ks) :
    SetsMatching players (committing [matchingUpdate players] ks) := by
  have current := current_of_holds loaded holds
  have written : ∀ d ∈ players.map fun e => (e.modify (·.withState .matching)).draft,
      ∃ text, d.text = .ok text :=
    List.forall_mem_map.2 fun e _ => ⟨_, rfl⟩
  have update := Operation.getElem?_update written ks
  refine ⟨current, fun e he => ?_, fun key others => ?_⟩
  · rcases update e.key with ⟨none, -⟩ | ⟨d, hd, own, text, wrote, there⟩
    · exact absurd rfl (none _ (List.mem_map_of_mem he))
    · obtain ⟨e', he', rfl⟩ := List.mem_map.1 hd
      -- Two entries of one key were loaded from one text.
      obtain ⟨text₁, stored, read⟩ := current e he
      obtain ⟨text₂, stored', read'⟩ := current e' he'
      have key : e'.key = e.key := own
      rw [key, stored] at stored'
      obtain rfl : text₁ = text₂ := by injection Option.some.inj stored'
      obtain rfl : e = e' := Except.ok.inj (read.symm.trans read')
      obtain rfl : _ = text := Except.ok.inj wrote
      exact there
  · rcases update key with ⟨-, same⟩ | ⟨d, hd, own, -⟩
    · exact same
    · obtain ⟨e, he, rfl⟩ := List.mem_map.1 hd
      exact absurd own (others e he)

/-- Once a commit of the update goes through, the players are set to matching. -/
theorem setToMatching_of_commits {others : Moment → Keyspace → Prop} {id : Nat}
    {settings : Settings} {commit : Commit} {requests : List (Entry PartyRequest)}
    {players : List (Entry PlayerRequest)} {reads : List Exchange}
    (loads : Reads PlayerRequest (requests.flatMap (·.record.party.players)) players reads)
    (commits : Commits others (m.next (opening id settings ks)) id settings
      [matchingUpdate players] (.ok commit) trace last) :
    SetToMatching requests (reads ++ opening id settings ks :: trace) := by
  cases commits with
  | nothing commands demands =>
    have none : players = [] := by
      cases players with
      | nil => rfl
      | cons e players => contradiction
    subst none
    exact .nobody loads (.opening id settings ks)
  | accepted gap staged holds fits =>
    refine .commit loads (.opening id settings ks) (setsMatching_committing (fun e he => ?_) holds)
    obtain ⟨id, -, loaded⟩ := loads.loaded e he
    exact ⟨id, loaded⟩

theorem stageable_matchingUpdate (players : List (Entry PlayerRequest)) (settings : Settings) :
    ∀ op ∈ [matchingUpdate players], op.Stageable settings :=
  List.forall_mem_singleton.2 (List.forall_mem_map.2 fun _ _ => ⟨_, rfl⟩)

/-- An update of a player's request that has changed since it was read is turned down. -/
theorem conclude_stale {player : Entry PlayerRequest} {text : String}
    (stored : ks[player.key]? = some (.string text)) (changed : text ≠ player.previous.getD "")
    (id : Nat) (settings : Settings) :
    ks.execute (Keyspace.batchOf [matchingUpdate [player]]) = (.ok (.rejected [true, false]), ks) ∧
      ((Transaction.empty id settings).stageAll [matchingUpdate [player]]).conclude
        (.ok (.rejected [true, false])) = .error (.rejected .aborted) := by
  have there : ks.holds (.keyExists player.key) = true := by
    rw [Keyspace.holds, Keyspace.contains_eq, stored]
    rfl
  have differs : ks.holds (.stringEqual player.key (player.previous.getD "")) = false := by
    simp [Keyspace.holds, stored, changed]
  have conditions : (Keyspace.batchOf [matchingUpdate [player]]).conditions =
      [.keyExists player.key, .stringEqual player.key (player.previous.getD "")] := rfl
  refine ⟨?_, rfl⟩
  simp only [Keyspace.execute, conditions, List.map_cons, List.map_nil, there, differs]
  rfl

theorem spares_matchingUpdate (players : List (Entry PlayerRequest)) :
    ∀ op ∈ [matchingUpdate players], op.Spares Key.queueNamespace :=
  List.forall_mem_singleton.2 (Operation.draftsOf_map _ players).spares_update

end Gateway

namespace Procedure.Amid

open Gateway

variable {others : Moment → Keyspace → Prop} {requests : List (Entry PartyRequest)}

/-- An attempt for one player loads the request, opens a transaction and executes it. -/
theorem tryMatching_alone {request : Entry PartyRequest} {x : String} {player : Entry PlayerRequest}
    {ks₁ ks₂ ks₃ after : Keyspace} {answer : Except StoreError Outcome}
    (alone : request.record.party.players = [x])
    (stored : ks₁.get PlayerRequest x = .ok (some player)) (reads : others m ks₁)
    (opens : others (m.next (.reading (.entry PlayerRequest x) ks₁)) ks₂)
    (executes : others ((m.next (.reading (.entry PlayerRequest x) ks₁)).next
      (.opening 1 .default ks₂)) ks₃)
    (executed : ks₃.execute (Keyspace.batchOf [matchingUpdate [player]]) = (answer, after)) :
    Amid others m (tryMatching [request])
      (.ok (((Transaction.empty 1 .default).stageAll [matchingUpdate [player]]).conclude answer))
      [.reading (.entry PlayerRequest x) ks₁, .opening 1 .default ks₂,
        .executing [matchingUpdate [player]] answer ks₃ after]
      (((m.next (.reading (.entry PlayerRequest x) ks₁)).next (.opening 1 .default ks₂)).next
        (.executing [matchingUpdate [player]] answer ks₃ after)) := by
  rw [tryMatching, playerRequests_eq, List.flatMap_singleton, alone]
  exact .bind (.getStored_singleton reads stored) (.attempt (.transact (stageable_matchingUpdate _ _)
    (fun nothing => List.cons_ne_nil _ _ nothing.1) opens executes executed))

/-- One attempt commits at most once. -/
theorem tryMatching_inv (own : ∀ m ks, others m ks → ks.OwnIds PlayerRequest)
    {result : Except GatewayError (Except StoreError Commit)}
    (run : Amid others m (tryMatching requests) result trace last) :
    Attempted requests 1 (∃ commit, result = .ok (.ok commit)) trace := by
  rw [tryMatching, playerRequests_eq] at run
  rcases run.bind_inv with ⟨e, rfl, failed⟩ | ⟨players, reads, mid, second, rfl, loads, rest⟩
  · obtain ⟨looks, -⟩ := failed.getStored_inv own
    refine ⟨(Tried.looks looks).mono (Nat.zero_le 1), ?_⟩
    rintro ⟨commit, same⟩
    contradiction
  · obtain ⟨looks, reloaded⟩ := loads.getStored_inv own
    have reloaded := reloaded players rfl
    obtain ⟨outcome, rfl, updated⟩ := rest.attempt_inv
    obtain ⟨ks, id, settings, later, -, rfl, commits⟩ := updated.transact_inv
    have made : (∃ commit, Except.ok outcome =
        (.ok (.ok commit) : Except GatewayError (Except StoreError Commit))) ↔
          ∃ commit, outcome = .ok commit := by simp
    have opened : ∀ x ∈ [opening id settings ks], x.Looks :=
      List.forall_mem_singleton.2 (.opening id settings ks)
    have silent : Tried 0 False (reads ++ [opening id settings ks]) :=
      .looks (List.forall_mem_append.2 ⟨looks, opened⟩)
    have tried := silent.append (commits.tried (spares_matchingUpdate players)) False.elim
    rw [List.append_assoc, List.singleton_append] at tried
    refine ⟨tried.congr made.symm, ?_⟩
    rintro ⟨commit, same⟩
    obtain rfl := Except.ok.inj same
    exact setToMatching_of_commits reloaded commits

/-- What the last attempt came to is the result. -/
theorem endMatching_inv {outcome : Except StoreError Commit} {result : Except GatewayError Unit}
    (run : Amid others m (endMatching outcome) result trace last) :
    trace = [] ∧ ((∃ u, result = .ok u) ↔ ∃ commit, outcome = .ok commit) := by
  cases outcome with
  | ok commit =>
    cases run
    exact ⟨rfl, iff_of_true ⟨(), rfl⟩ ⟨commit, rfl⟩⟩
  | error e =>
    cases run
    refine ⟨rfl, iff_of_false ?_ ?_⟩
    · rintro ⟨u, same⟩
      contradiction
    · rintro ⟨commit, same⟩
      contradiction

/-- Attempts are made until one goes through or the retries are used up. -/
theorem setMatching_inv (own : ∀ m ks, others m ks → ks.OwnIds PlayerRequest) {retries : Nat}
    {result : Except GatewayError Unit}
    (run : Amid others m (setMatching requests retries) result trace last) :
    Attempted requests (retries + 1) (∃ u, result = .ok u) trace := by
  induction retries generalizing m trace with
  | zero =>
    rw [setMatching] at run
    rcases run.bind_inv with ⟨e, rfl, failed⟩ | ⟨outcome, first, mid, second, rfl, tried, rest⟩
    · exact (failed.tryMatching_inv own).congr (by simp)
    · obtain ⟨rfl, ended⟩ := rest.endMatching_inv
      rw [List.append_nil]
      exact (tried.tryMatching_inv own).congr (by simp [ended])
  | succ retries ih =>
    rw [setMatching] at run
    rcases run.bind_inv with ⟨e, rfl, failed⟩ | ⟨outcome, first, mid, second, rfl, tried, rest⟩
    · exact ((failed.tryMatching_inv own).congr (by simp)).mono (Nat.succ_le_succ (Nat.zero_le _))
    · have attempt := tried.tryMatching_inv own
      cases outcome with
      | ok commit =>
        cases rest
        rw [List.append_nil]
        exact (attempt.congr (by simp)).mono (Nat.succ_le_succ (Nat.zero_le _))
      | error e =>
        have failed : ¬ ∃ commit,
            (.ok (.error e) : Except GatewayError (Except StoreError Commit)) =
              .ok (.ok commit) := by
          rintro ⟨commit, same⟩
          injection same with same
          contradiction
        dsimp only at rest
        split at rest
        · exact attempt.again failed (ih rest)
        · obtain ⟨rfl, ended⟩ := rest.endMatching_inv
          rw [List.append_nil]
          exact (attempt.congr (by simp [ended])).mono (Nat.succ_le_succ (Nat.zero_le _))

/-- A call takes popped parties over: it loads their requests and sets their players to
matching. -/
theorem takeOver_inv (parties : ∀ m ks, others m ks → ks.OwnIds PartyRequest)
    (players : ∀ m ks, others m ks → ks.OwnIds PlayerRequest) {popped : List ScoredMember}
    {result : Except GatewayError (List (Entry PartyRequest))}
    (run : Amid others m (takeOver popped) result trace last) :
    TakenOver (popped.map (·.member)) result trace := by
  rw [takeOver] at run
  rcases run.bind_inv with ⟨e, rfl, failed⟩ | ⟨requests, loads, mid, second, rfl, loaded, rest⟩
  · obtain ⟨looks, -⟩ := failed.getStored_inv parties
    exact ⟨(Tried.looks looks).mono (Nat.zero_le _), fun requests same => by contradiction⟩
  · obtain ⟨looks, reads⟩ := loaded.getStored_inv parties
    have reads := reads requests rfl
    have silent : Tried 0 False loads := .looks looks
    rcases rest.bind_inv with ⟨e, rfl, failed⟩ | ⟨u, first, mid', third, rfl, matching, ended⟩
    · have tried := silent.append (failed.setMatching_inv players).toTried False.elim
      rw [Nat.zero_add] at tried
      exact ⟨tried.congr (by simp), fun requests same => by contradiction⟩
    · cases ended
      rw [List.append_nil]
      have attempts := matching.setMatching_inv players
      have tried := silent.append attempts.toTried False.elim
      rw [Nat.zero_add] at tried
      refine ⟨tried.congr (by simp), fun requests' same => ?_⟩
      obtain rfl := Except.ok.inj same
      exact ⟨loads, first, rfl, reads, attempts.succeeded ⟨u, rfl⟩⟩

end Procedure.Amid

/-! ## Putting members back -/

/-- Some exchanges put members into a queue and do nothing else. -/
structure PutBack (queue : String) (members : List ScoredMember) (trace : List Exchange)
    (ks : Keyspace) : Prop where
  silent : textWrites trace = 0
  within : ∀ x ∈ trace, x.Within (.queue queue)
  unpopped : ∀ x ∈ trace, x.popped = []
  waits : ∀ a ∈ members, ks.Waits queue a.member a.score

/-- The members that a commit enqueues wait, because nothing can turn it down. -/
theorem Commits.enqueued {id : Nat} {settings : Settings} {members : List ScoredMember}
    {result : Except StoreError Commit}
    (h : Commits (Considerate queue) m id settings [.enqueueMembers queue members] result trace
      last)
    (wellFormed : m.keyspace.WellFormed)
    (once : ∀ a ∈ members, ∀ b ∈ members, a.member = b.member → a = b) :
    PutBack queue members trace last.keyspace := by
  cases h with
  | unstaged bad => exact absurd (List.forall_mem_singleton.2 trivial) bad
  | nothing commands demands =>
    rw [Operation.allCommands_enqueueMembers, List.map_eq_nil_iff] at commands
    subst commands
    exact ⟨rfl, List.forall_mem_nil _, List.forall_mem_nil _, List.forall_mem_nil _⟩
  | refused gap misfits idle =>
    obtain ⟨set, shown⟩ := gap.shown
    exact absurd (Operation.firstMismatch_enqueueMembers shown members)
      (misfits (List.forall_mem_nil _))
  | @accepted ks gap staged holds fits =>
    obtain ⟨set, shown⟩ := gap.shown
    have agrees : set.Agrees := (gap.wellFormed wellFormed).agrees_shown shown
    constructor
    case silent =>
      exact textWrites_eq_zero (List.forall_mem_singleton.2
        (writesText_enqueueMembers queue members ks))
    case within => exact List.forall_mem_singleton.2 (within_committing rfl ks)
    case unpopped =>
      refine List.forall_mem_singleton.2 (popped_committing (fun queue' count mem => ?_) ks)
      exact absurd (List.mem_singleton.1 mem) (by simp)
    case waits =>
      intro a ha
      refine ⟨_, Operation.sortedSetAt?_enqueueMembers shown agrees members,
        SortedSet.score?_insertAll_of (fun b hb same => ?_) (.inl (List.mem_map_of_mem ha))⟩
      rw [once b hb a ha same]

/-- Members that a call holds can be put back into a queue. -/
theorem Procedure.Amid.putBack_inv (wellFormed : m.keyspace.WellFormed)
    {popped : List ScoredMember}
    (once : ∀ a ∈ popped, ∀ b ∈ popped, a.member = b.member → a = b)
    {result : Except GatewayError Unit}
    (run : Amid (Considerate queue) m (Gateway.putBack queue popped) result trace last) :
    result = .ok () ∧ PutBack queue popped trace last.keyspace := by
  rw [Gateway.putBack] at run
  rcases run.bind_inv with ⟨e, -, failed⟩ | ⟨outcome, first, mid, second, rfl, stored, ended⟩
  · obtain ⟨outcome, same, -⟩ := failed.attempt_inv
    contradiction
  obtain ⟨outcome, -, stored⟩ := stored.attempt_inv
  obtain ⟨ks, id, settings, later, others, rfl, commits⟩ := stored.transact_inv
  cases ended
  rw [List.append_nil]
  have back := commits.enqueued (others.wellFormed wellFormed) once
  have opened := Looks.opening id settings ks
  refine ⟨rfl, ?_, List.forall_mem_cons.2 ⟨opened.idle.within _, back.within⟩,
    List.forall_mem_cons.2 ⟨opened.idle.popped, back.unpopped⟩, back.waits⟩
  rw [← List.singleton_append, textWrites_append, back.silent,
    textWrites_looks (List.forall_mem_singleton.2 opened)]

/-! ## Popping -/

/-- What a dequeue that went through popped. -/
structure Dequeued (queue : String) (popped : List ScoredMember) (x : Exchange) : Prop where
  handed : x.popped = popped
  within : x.Within (.queue queue)
  silent : x.request.writesText = false
  once : ∀ a ∈ popped, ∀ b ∈ popped, a.member = b.member → a = b
  waited : ∀ a ∈ popped, x.before.Waits queue a.member a.score
  gone : ∀ a ∈ popped, ∀ score, ¬ x.after.Waits queue a.member score

/-- A dequeue takes the first members off the queue. -/
theorem Commits.dequeued {id count : Nat} {settings : Settings} {commit : Commit}
    (h : Commits (Considerate queue) m id settings [.dequeue queue count] (.ok commit) trace last)
    (wellFormed : m.keyspace.WellFormed) :
    ∃ x, trace = [x] ∧ last = m.next x ∧ Dequeued queue (commit.dequeued ⟨id, 0⟩) x := by
  cases h with
  | nothing commands demands => contradiction
  | @accepted ks gap staged holds fits =>
    have handed : ∃ set, ks.sortedSetAt? (.queue queue) = some set ∧
        Commit.dequeued ⟨id, ks.answers (Operation.allCommands [.dequeue queue count])⟩ ⟨id, 0⟩ =
          set.first count :=
      @Operation.dequeued_eq ks id settings [] [] queue count staged fits
    obtain ⟨set, shown, popped⟩ := handed
    have agrees : set.Agrees := (gap.wellFormed wellFormed).agrees_shown shown
    have among {a : ScoredMember} (ha : a ∈ set.first count) : a ∈ set.members :=
      List.mem_of_mem_take ha
    have left : (committing [.dequeue queue count] ks).after.sortedSetAt? (.queue queue) =
        some (set.dropFirst count) :=
      Keyspace.sortedSetAt?_editSet shown (agrees.dropFirst count)
    rw [popped]
    refine ⟨_, rfl, rfl, ?_, within_committing rfl ks, rfl, fun a ha b hb => ?_, fun a ha => ?_,
      fun a ha score => ?_⟩
    · have answer : ks.answer (.popFirst (.queue queue) count) = .popped (set.first count) := by
        rw [Keyspace.answer, shown]
        rfl
      change [ks.answer (.popFirst (.queue queue) count)].flatMap Reply.members = _
      rw [answer, List.flatMap_singleton]
      rfl
    · exact agrees.eq_of_member (among ha) (among hb)
    · exact ⟨set, shown, agrees.mem_members.1 (among ha)⟩
    · rintro ⟨set', shown', there⟩
      obtain rfl := Option.some.inj (left.symm.trans shown')
      rw [SortedSet.score?_dropFirst, if_pos (List.mem_map_of_mem ha)] at there
      contradiction

namespace Gateway

/-- What a pop has done about the members that it popped when it ends with a result.

Either they do not wait in the queue.  Then the pop has loaded the requests that it
returns and has set their players to matching, and before that it changed no key but the
queue.  Or they wait in the queue at the scores they were popped at, and the pop has
changed no other key. -/
def AllOrNothing (queue : String) (popped : List ScoredMember) (trace : List Exchange)
    (ks : Keyspace) : Except GatewayError (List (Entry PartyRequest)) → Prop
  | .ok requests =>
    (∀ a ∈ popped, ∀ score, ¬ ks.Waits queue a.member score) ∧
    ∃ before loads rest, trace = before ++ (loads ++ rest) ∧
      (∀ x ∈ before, x.Within (.queue queue)) ∧
      Reads PartyRequest (popped.map (·.member)) requests loads ∧ SetToMatching requests rest
  | .error _ =>
    (∀ a ∈ popped, ks.Waits queue a.member a.score) ∧ ∀ x ∈ trace, x.Within (.queue queue)

/-- Exchanges that change no key but the queue in front of others. -/
theorem AllOrNothing.prepend {popped : List ScoredMember} {first : List Exchange}
    {result : Except GatewayError (List (Entry PartyRequest))}
    (h : AllOrNothing queue popped trace ks result)
    (within : ∀ x ∈ first, x.Within (.queue queue)) :
    AllOrNothing queue popped (first ++ trace) ks result := by
  cases result with
  | ok requests =>
    obtain ⟨gone, before, loads, rest, rfl, within', reads, matching⟩ := h
    refine ⟨gone, first ++ before, loads, rest, (List.append_assoc _ _ _).symm, ?_, reads, matching⟩
    exact List.forall_mem_append.2 ⟨within, within'⟩
  | error e => exact ⟨h.1, List.forall_mem_append.2 ⟨within, h.2⟩⟩

end Gateway

namespace Procedure.Amid

open Gateway

variable {result : Except GatewayError (List (Entry PartyRequest))}

/-- Popped parties are taken over, or they are put back. -/
theorem takeOver_or_putBack_inv (wellFormed : m.keyspace.WellFormed) {popped : List ScoredMember}
    (once : ∀ a ∈ popped, ∀ b ∈ popped, a.member = b.member → a = b)
    (handed : popped ⊆ m.handed)
    (gone : ∀ a ∈ popped, ∀ score, ¬ m.keyspace.Waits queue a.member score)
    (run : Amid (Considerate queue) m
      ((takeOver popped).handle fun e => do
        putBack queue popped
        throw e) result trace last) :
    textWrites trace ≤ 3 ∧ (∀ x ∈ trace, x.popped = []) ∧
      AllOrNothing queue popped trace last.keyspace result := by
  have parties (m : Moment) (ks : Keyspace) (others : Considerate queue m ks) := others.parties
  have players (m : Moment) (ks : Keyspace) (others : Considerate queue m ks) := others.players
  rcases run.handle_inv with ⟨requests, rfl, took⟩ | ⟨e, first, mid, second, rfl, failed, rest⟩
  · have taken := took.takeOver_inv parties players
    obtain ⟨loads, rest, rfl, reads, matching⟩ := taken.succeeded requests rfl
    refine ⟨taken.bounded, fun x hx => (taken.spares x hx).popped, fun a ha score => ?_,
      [], loads, rest, rfl, List.forall_mem_nil _, reads, matching⟩
    rw [took.waits (fun x hx => (taken.spares x hx).same queue) (handed ha)]
    exact gone a ha score
  · have taken := failed.takeOver_inv parties players
    have idle : ∀ x ∈ first, x.Idle := taken.failed (by simp)
    rcases rest.bind_inv with ⟨e', rfl, back⟩ | ⟨u, third, mid', fourth, rfl, back, ended⟩
    · have := (back.putBack_inv (failed.wellFormed wellFormed) once).1
      contradiction
    · obtain ⟨-, back⟩ := back.putBack_inv (failed.wellFormed wellFormed) once
      cases ended
      rw [List.append_nil]
      refine ⟨?_, ?_, back.waits, ?_⟩
      · rw [textWrites_append, back.silent]
        exact taken.bounded
      · exact List.forall_mem_append.2 ⟨fun x hx => (taken.spares x hx).popped, back.unpopped⟩
      · exact List.forall_mem_append.2 ⟨fun x hx => (idle x hx).within _, back.within⟩

/-- A pop fails without a change, or it goes on with what its dequeue popped. -/
theorem pop_inv {count : Nat} (wellFormed : m.keyspace.WellFormed)
    (run : Amid (Considerate queue) m (pop queue count) result trace last) :
    ((∃ e, result = .error e) ∧ textWrites trace = 0 ∧ ∀ x ∈ trace, x.Idle) ∨
      ∃ popped opened x rest, opened.Looks ∧ Dequeued queue popped x ∧
        trace = [opened, x] ++ rest ∧ ((m.next opened).next x).keyspace.WellFormed ∧
        Amid (Considerate queue) ((m.next opened).next x)
          ((takeOver popped).handle fun e => do
            putBack queue popped
            throw e) result rest last := by
  by_cases positive : count = 0
  · rw [pop, if_pos positive] at run
    cases run
    exact .inl ⟨⟨_, rfl⟩, rfl, List.forall_mem_nil _⟩
  rw [pop_eq positive] at run
  rcases run.bind_inv with ⟨e, -, failed⟩ | ⟨tx, first, mid, second, rfl, read, rest⟩
  · obtain ⟨outcome, same, opened⟩ := failed.mapError_inv
    obtain ⟨_, _, _, _, rfl, -⟩ := opened.begin_inv
    contradiction
  obtain ⟨outcome, same, opened⟩ := read.mapError_inv
  obtain ⟨ks, id, settings, others, rfl, rfl, rfl⟩ := opened.begin_inv
  obtain rfl := Except.ok.inj same
  have looks := Looks.opening id settings ks
  have formed := others.wellFormed wellFormed
  rcases rest.bind_inv with ⟨e, rfl, failed⟩ | ⟨commit, third, mid', fourth, rfl, done, later⟩
  · obtain ⟨outcome, same, failed⟩ := failed.mapError_inv
    cases outcome with
    | ok commit => contradiction
    | error e' =>
      have commits := failed.commit_inv
      refine .inl ⟨⟨e, rfl⟩, ?_, List.forall_mem_cons.2 ⟨looks.idle, commits.idle⟩⟩
      cases commits with
      | unstaged | refused => rfl
  · obtain ⟨outcome, same, done⟩ := done.mapError_inv
    cases outcome with
    | error e => contradiction
    | ok commit' =>
      obtain rfl := Except.ok.inj same
      obtain ⟨x, rfl, rfl, dequeued⟩ := done.commit_inv.dequeued formed
      exact .inr ⟨_, _, x, fourth, looks, dequeued, rfl, done.wellFormed formed, later⟩

end Procedure.Amid

namespace Gateway

/-- On a store in the form that all batches keep, a pop amid other clients that leave the
type of the queue and the popped members alone does all of it or nothing.  It asks for
players' requests to be written at most three times, and the members that it popped
waited in the queue at their scores. -/
theorem pop_all_or_nothing {count : Nat} (wellFormed : ks.WellFormed)
    {result : Except GatewayError (List (Entry PartyRequest))}
    (run : (pop queue count).Amid (Considerate queue) ⟨ks, []⟩ result trace last) :
    textWrites trace ≤ 3 ∧
    (∀ a ∈ last.handed, ∃ x ∈ trace, a ∈ x.popped ∧ x.before.Waits queue a.member a.score) ∧
    AllOrNothing queue last.handed trace last.keyspace result := by
  have handed := run.handed_eq
  rcases run.pop_inv wellFormed with
    ⟨⟨e, rfl⟩, silent, idle⟩ | ⟨popped, opened, x, rest, looks, dequeued, rfl, formed, later⟩
  · have nothing : last.handed = [] := by
      rw [handed]
      exact List.flatMap_eq_nil_iff.2 fun x hx => (idle x hx).popped
    rw [nothing, silent]
    refine ⟨Nat.zero_le 3, List.forall_mem_nil _,
      List.forall_mem_nil _, fun x hx => (idle x hx).within _⟩
  · obtain ⟨bounded, unpopped, ends⟩ := later.takeOver_or_putBack_inv formed dequeued.once
      (fun a ha => List.mem_append_right _ (dequeued.handed.symm ▸ ha)) dequeued.gone
    have all : last.handed = popped := by
      rw [handed, List.flatMap_append, List.flatMap_eq_nil_iff.2 unpopped, List.append_nil]
      change [] ++ (opened.popped ++ (x.popped ++ [])) = popped
      rw [looks.idle.popped, dequeued.handed, List.append_nil]
      rfl
    rw [all]
    refine ⟨?_, fun a ha => ?_, ends.prepend ?_⟩
    · have first : textWrites [opened, x] = 0 :=
        textWrites_eq_zero (List.forall_mem_cons.2 ⟨looks.writesText,
          List.forall_mem_singleton.2 dequeued.silent⟩)
      rw [textWrites_append, first, Nat.zero_add]
      exact bounded
    · exact ⟨x, List.mem_append_left _ (List.mem_cons_of_mem _ List.mem_cons_self),
        dequeued.handed.symm ▸ ha, dequeued.waited a ha⟩
    · exact List.forall_mem_cons.2
        ⟨looks.idle.within _, List.forall_mem_singleton.2 dequeued.within⟩

/-! ## A party whose request is retyped -/

/-- Another client puts a hash in the place of the request of Ann's party. -/
def retyping : Batch :=
  ⟨[], [.delete (.entry PartyRequest "p"), .setFields (.entry PartyRequest "p") [("x", "y")]]⟩

/-- What that leaves of the store once Ann's party is popped. -/
def retypedStore : Keyspace := poppedStore.executeAll [retyping]

theorem wellFormed_annsStore : annsStore.WellFormed := by
  have party := Keyspace.wellFormed_empty.insert (v := .string annsRequest.toJson.print) rfl trivial
    (.entry PartyRequest "p")
  have player := party.insert (v := .string annsOwnRequest.toJson.print) rfl trivial
    (.entry PlayerRequest "ann")
  exact player.insert (v := .sortedSet annsQueue) rfl (SortedSet.agrees_empty.insert _)
    (.queue "duel")

/-- All texts of a store are those of the requests that Ann's join wrote. -/
def AnnsTexts (ks : Keyspace) : Prop :=
  ∀ (key : Key) text, ks[key]? = some (.string text) →
    (key = .entry PartyRequest "p" ∧ text = annsRequest.toJson.print) ∨
      (key = .entry PlayerRequest "ann" ∧ text = annsOwnRequest.toJson.print)

theorem annsTexts_annsStore : AnnsTexts annsStore := by
  intro key text stored
  simp only [annsStore, Keyspace.getElem?_insert] at stored
  split at stored
  next =>
    injection stored with other
    injection other
  split at stored
  next same =>
    injection stored with stored
    injection stored with stored
    exact .inr ⟨same.symm, stored.symm⟩
  split at stored
  next same =>
    injection stored with stored
    injection stored with stored
    exact .inl ⟨same.symm, stored.symm⟩
  next =>
    rw [Std.ExtTreeMap.getElem?_empty] at stored
    contradiction

theorem annsTexts_poppedStore : AnnsTexts poppedStore := by
  intro key text stored
  by_cases here : Key.queue "duel" = key
  · subst here
    have shown := sortedSetAt?_poppedStore
    rw [Keyspace.sortedSetAt?, stored] at shown
    contradiction
  · rw [poppedStore, Keyspace.getElem?_editSet_of_ne here] at stored
    exact annsTexts_annsStore key text stored

theorem annsTexts_retypedStore : AnnsTexts retypedStore := by
  intro key text stored
  have edited : retypedStore = (poppedStore.erase (.entry PartyRequest "p")).insert
    (.entry PartyRequest "p") (.hash (TextMap.setAll ∅ [("x", "y")])) := rfl
  rw [edited, Keyspace.getElem?_insert, Keyspace.getElem?_erase] at stored
  split at stored
  next =>
    injection stored with other
    injection other
  next => exact annsTexts_poppedStore key text stored

/-- Ann's join wrote the requests under their ids. -/
theorem AnnsTexts.ownIds (h : AnnsTexts ks) :
    ks.OwnIds PartyRequest ∧ ks.OwnIds PlayerRequest := by
  constructor
  · refine .of_texts fun id text stored => ?_
    rcases h _ text stored with ⟨same, rfl⟩ | ⟨same, -⟩
    · have decoded := PartyRequest.ofJson?_toJson (r := annsRequest)
        (Score.readsBack_ofNat (by decide))
      exact ⟨annsRequest, _, rfl, decoded, (Key.entry_inj.1 same).symm⟩
    · exact absurd same (Key.compose_ne (by decide) id "ann")
  · refine .of_texts fun id text stored => ?_
    rcases h _ text stored with ⟨same, -⟩ | ⟨same, rfl⟩
    · exact absurd same (Key.compose_ne (by decide) id "p")
    · exact ⟨annsOwnRequest, _, rfl, PlayerRequest.ofJson?_toJson _, (Key.entry_inj.1 same).symm⟩

/-- Ann's party has been popped. -/
def poppedMoment : Moment := ⟨poppedStore, [⟨"p", .ofNat 0⟩]⟩

theorem considerate_annsStore : Considerate "duel" ⟨annsStore, []⟩ annsStore :=
  .stay ⟨_, sortedSetAt?_annsStore⟩ annsTexts_annsStore.ownIds

/-- A pop of Ann's party fails if the party's request is retyped in between. -/
theorem exists_pop_after_retyping : ∃ trace last,
    (pop "duel" 1).Amid (Considerate "duel") ⟨annsStore, []⟩
      (.error (.store (.wrongType (.entry PartyRequest "p") .string))) trace last ∧
    last.handed = [⟨"p", .ofNat 0⟩] := by
  have queue : retypedStore[Key.queue "duel"]? = poppedStore[Key.queue "duel"]? := rfl
  have shown : retypedStore.sortedSetAt? (.queue "duel") = some .empty :=
    (Keyspace.sortedSetAt?_congr queue).trans sortedSetAt?_poppedStore
  have ids := annsTexts_retypedStore.ownIds
  have between : Considerate "duel" poppedMoment retypedStore :=
    ⟨⟨[retyping], rfl⟩, ⟨_, shown⟩, fun a _ score => Keyspace.waits_congr queue a.member score,
      ids.1, ids.2⟩
  have later : Considerate "duel" ⟨retypedStore, [⟨"p", .ofNat 0⟩]⟩ retypedStore :=
    .stay ⟨_, shown⟩ ids
  exact ⟨_, _, .ask considerate_annsStore (.begin annsStore) <|
    .ask considerate_annsStore (.execute annsStore _) <|
    .ask between (.readString retypedStore _) <| .ask later (.begin retypedStore) <|
    .ask later (.execute retypedStore _) .done, rfl⟩

/-! ## A player whose request is amended -/

/-- Ann's request after another client has added something. -/
def amendedRequest : PlayerRequest := { annsOwnRequest with metadata := (∅ : TextMap).insert "x" "y" }

/-- Another client amends Ann's request. -/
def amending : Batch :=
  ⟨[], [.setString (.entry PlayerRequest "ann") amendedRequest.toJson.print]⟩

/-- What that leaves of the store once Ann's party is popped. -/
def amendedStore : Keyspace := poppedStore.executeAll [amending]

/-- Another client writes one key. -/
theorem getElem?_amendedStore (key : Key) : amendedStore[key]? =
    if Key.entry PlayerRequest "ann" = key then some (.string amendedRequest.toJson.print)
    else poppedStore[key]? :=
  Keyspace.getElem?_insert _ _ _ _

theorem get_amendedRequest : amendedStore.get PlayerRequest "ann" =
    .ok (some ⟨amendedRequest, some amendedRequest.toJson.print⟩) := by
  refine Keyspace.get_of_text ?_ (Entry.deserialize_print (PlayerRequest.ofJson?_toJson _))
  rw [getElem?_amendedStore, if_pos rfl]

theorem ownIds_amendedStore :
    amendedStore.OwnIds PartyRequest ∧ amendedStore.OwnIds PlayerRequest := by
  have ids := annsTexts_poppedStore.ownIds
  have written : amendedStore = (Entry.fresh amendedRequest).draft.write poppedStore := rfl
  refine ⟨ids.1.congr fun id => ?_, written ▸ ids.2.write (PlayerRequest.readable _)⟩
  exact (getElem?_amendedStore _).trans (if_neg (Key.compose_ne (by decide) "ann" id))

theorem queue_amendedStore :
    amendedStore[Key.queue "duel"]? = poppedStore[Key.queue "duel"]? :=
  (getElem?_amendedStore _).trans (if_neg (Key.compose_ne (by decide) "ann" "duel"))

/-- What the pop leaves of the store in the end. -/
def matchingStore : Keyspace :=
  (Entry.fresh (amendedRequest.withState .matching)).draft.write amendedStore

/-- Ann's request has been amended. -/
def amendedMoment : Moment := ⟨amendedStore, [⟨"p", .ofNat 0⟩]⟩

/-- The pop has set Ann to matching. -/
def matchingMoment : Moment := ⟨matchingStore, [⟨"p", .ofNat 0⟩]⟩

theorem considerate_poppedMoment : Considerate "duel" poppedMoment poppedStore :=
  .stay ⟨_, sortedSetAt?_poppedStore⟩ annsTexts_poppedStore.ownIds

theorem sortedSetAt?_amendedStore : amendedStore.sortedSetAt? (.queue "duel") = some .empty :=
  (Keyspace.sortedSetAt?_congr queue_amendedStore).trans sortedSetAt?_poppedStore

theorem considerate_amending : Considerate "duel" poppedMoment amendedStore where
  batches := ⟨[amending], rfl⟩
  shown := ⟨_, sortedSetAt?_amendedStore⟩
  untouched a _ score := Keyspace.waits_congr queue_amendedStore a.member score
  parties := ownIds_amendedStore.1
  players := ownIds_amendedStore.2

theorem considerate_amendedMoment : Considerate "duel" amendedMoment amendedStore :=
  .stay ⟨_, sortedSetAt?_amendedStore⟩ ownIds_amendedStore

/-- An attempt comes to nothing if Ann's request is amended after it has been read. -/
theorem exists_stale_attempt {request : Entry PartyRequest}
    (alone : request.record.party.players = ["ann"]) :
    ∃ trace, (tryMatching [request]).Amid (Considerate "duel") poppedMoment
      (.ok (.error (.rejected .aborted))) trace amendedMoment ∧ textWrites trace = 1 := by
  let player : Entry PlayerRequest := ⟨annsOwnRequest, some annsOwnRequest.toJson.print⟩
  have stored : amendedStore[player.key]? = some (.string amendedRequest.toJson.print) :=
    (getElem?_amendedStore _).trans (if_pos rfl)
  have changed : amendedRequest.toJson.print ≠ player.previous.getD "" := by decide +kernel
  obtain ⟨executed, concluded⟩ := conclude_stale stored changed 1 .default
  have run := Procedure.Amid.tryMatching_alone alone get_annsOwnRequest considerate_poppedMoment
    considerate_poppedMoment considerate_amending executed
  rw [concluded] at run
  exact ⟨_, run, rfl⟩

/-- An attempt that reads the amended request goes through. -/
theorem exists_fresh_attempt {request : Entry PartyRequest}
    (alone : request.record.party.players = ["ann"]) :
    ∃ trace, (tryMatching [request]).Amid (Considerate "duel") amendedMoment
      (.ok (.ok ⟨1, [.done]⟩)) trace matchingMoment ∧ textWrites trace = 1 := by
  let player : Entry PlayerRequest := ⟨amendedRequest, some amendedRequest.toJson.print⟩
  have executed : amendedStore.execute (Keyspace.batchOf [matchingUpdate [player]]) =
      (.ok (.committed [.done]), matchingStore) := by
    obtain ⟨present, unchanged⟩ :=
      Keyspace.unchanged_of_entry? (Keyspace.get_eq_ok get_amendedRequest)
        (d := (player.modify (·.withState .matching)).draft) rfl rfl
    exact Keyspace.execute_committed (stageable_matchingUpdate [player] .default)
      (List.forall_mem_cons.2 ⟨present, List.forall_mem_singleton.2 unchanged⟩)
      (Keyspace.firstMismatch_untyped _ (List.forall_mem_singleton.2 rfl))
  exact ⟨_, .tryMatching_alone alone get_amendedRequest considerate_amendedMoment
    considerate_amendedMoment considerate_amendedMoment executed, rfl⟩

/-- A pop of Ann's party goes through in the second attempt if her request is amended in the
first one. -/
theorem exists_pop_after_amending : ∃ trace last,
    (pop "duel" 1).Amid (Considerate "duel") ⟨annsStore, []⟩
      (.ok [⟨annsRequest, some annsRequest.toJson.print⟩]) trace last ∧
    last.handed = [⟨"p", .ofNat 0⟩] ∧ textWrites trace = 2 ∧ last.keyspace = matchingStore := by
  let request : Entry PartyRequest := ⟨annsRequest, some annsRequest.toJson.print⟩
  have alone : request.record.party.players = ["ann"] := by decide
  obtain ⟨trace, stale, once⟩ := exists_stale_attempt alone
  obtain ⟨trace', fresh, twice⟩ := exists_fresh_attempt alone
  have last : (setMatching [request] 1).Amid (Considerate "duel") amendedMoment (.ok ())
      (trace' ++ []) matchingMoment := by
    rw [setMatching]
    exact .bind fresh .done
  have both : (setMatching [request] 2).Amid (Considerate "duel") poppedMoment (.ok ())
      (trace ++ (trace' ++ [])) matchingMoment := by
    rw [setMatching]
    exact .bind stale last
  have took : (takeOver [⟨"p", .ofNat 0⟩]).Amid (Considerate "duel") poppedMoment (.ok [request])
      ([reading (.entry PartyRequest "p") poppedStore] ++ (trace ++ (trace' ++ []) ++ []))
      matchingMoment :=
    .bind (.getStored_singleton considerate_poppedMoment get_annsRequest) (.bind both .done)
  have writes : textWrites ([reading (.entry PartyRequest "p") poppedStore] ++
      (trace ++ (trace' ++ []) ++ [])) = 2 := by
    simp only [textWrites_append, once, twice]
    rfl
  exact ⟨_, _, .ask considerate_annsStore (.begin annsStore)
    (.ask considerate_annsStore (.execute annsStore _) took.handle), rfl, writes, rfl⟩

/-- Both ends of a pop of Ann's party.  It puts the party back if the party's request is retyped
in between.  If Ann's own request is amended, the first attempt comes to nothing, and the second
one sets the amended request to matching. -/
theorem both_ends_of_pop :
    annsStore.WellFormed ∧
    (∃ trace last, (pop "duel" 1).Amid (Considerate "duel") ⟨annsStore, []⟩
        (.error (.store (.wrongType (.entry PartyRequest "p") .string))) trace last ∧
      last.handed = [⟨"p", .ofNat 0⟩] ∧ last.keyspace.Waits "duel" "p" (.ofNat 0) ∧
      ∀ x ∈ trace, x.Within (.queue "duel")) ∧
    ∃ trace last, (pop "duel" 1).Amid (Considerate "duel") ⟨annsStore, []⟩
        (.ok [⟨annsRequest, some annsRequest.toJson.print⟩]) trace last ∧
      last.handed = [⟨"p", .ofNat 0⟩] ∧ (∀ score, ¬ last.keyspace.Waits "duel" "p" score) ∧
      textWrites trace = 2 ∧ last.keyspace.record? PlayerRequest "ann" =
        some (amendedRequest.withState .matching) := by
  obtain ⟨trace, last, run, handed⟩ := exists_pop_after_retyping
  obtain ⟨trace', last', run', handed', twice, left⟩ := exists_pop_after_amending
  obtain ⟨-, -, back, within⟩ := pop_all_or_nothing wellFormed_annsStore run
  obtain ⟨-, -, gone, -⟩ := pop_all_or_nothing wellFormed_annsStore run'
  rw [handed] at back
  rw [handed'] at gone
  refine ⟨wellFormed_annsStore, ⟨trace, last, run, handed, back _ List.mem_cons_self, within⟩,
    trace', last', run', handed', gone _ List.mem_cons_self, twice, ?_⟩
  rw [left, matchingStore, (Entry.draft_writes (PlayerRequest.readable _)).record?]
  exact if_pos rfl

end Gateway

end Matchmaking
