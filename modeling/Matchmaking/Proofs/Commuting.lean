import Matchmaking.Proofs.FirstCome

/-!
# Assignments of different parties commute

An assignment rewrites the value at each key on its own.  Those of different parties
change different keys, because no two parties with requests share a player.  Only the
queues are shared, and there they put different parties into one sorted set, whatever the
order.  So the values that a list of assignments leaves do not depend on its order.

Neither does whether all of them are carried out.  One assignment leaves the requests, the
parties and the players of the others alone, so what was applicable stays applicable.
-/

namespace Matchmaking

/-- Members that differ go into a sorted set in any order. -/
theorem SortedSet.Agrees.insert_comm {s : SortedSet} (h : s.Agrees) {m m' : ScoredMember}
    (other : m.member ≠ m'.member) : (s.insert m).insert m' = (s.insert m').insert m := by
  refine ((h.insert m).insert m').ext ((h.insert m').insert m) fun y => ?_
  simp only [score?_insert]
  split
  next here =>
    rw [if_neg]
    rintro rfl
    exact other here.symm
  next => rfl

namespace Value

/-- A value that is a sorted set has agreeing indexes. -/
def Usable (value : Option Value) : Prop :=
  ∀ set, value = some (.sortedSet set) → set.Agrees

theorem enqueue_comm {m m' : ScoredMember} (other : m.member ≠ m'.member) {value : Option Value}
    (usable : Usable value) : enqueue m' (enqueue m value) = enqueue m (enqueue m' value) := by
  cases value with
  | none =>
    exact congrArg (fun set => some (sortedSet set)) (SortedSet.agrees_empty.insert_comm other)
  | some v =>
    cases v with
    | sortedSet set =>
      exact congrArg (fun set => some (sortedSet set)) ((usable set rfl).insert_comm other)
    | _ => rfl

theorem Usable.enqueue {value : Option Value} (usable : Usable value) (m : ScoredMember) :
    Usable (Value.enqueue m value) := by
  cases value with
  | none =>
    rintro set same
    injection same with same
    injection same with same
    exact same ▸ SortedSet.agrees_empty.insert m
  | some v =>
    cases v with
    | sortedSet set =>
      rintro set' same
      injection same with same
      injection same with same
      exact same ▸ (usable set rfl).insert m
    | _ => exact usable

theorem Usable.revise {α : Type} [Record α] {f : α → α} {value : Option Value}
    (usable : Usable value) : Usable (Value.revise f value) := by
  cases value with
  | none => exact usable
  | some v =>
    cases v with
    | string text =>
      unfold Value.revise
      dsimp only
      intro set same
      split at same
      · split at same <;> simp at same
      · simp at same
    | _ => exact usable

end Value

/-- Steps that commute pairwise lead to one end in any order, where each step keeps what
commuting needs. -/
theorem foldl_perm {α β : Type} {f : β → α → β} (Good : β → Prop) {Independent : α → α → Prop}
    (keeps : ∀ z a, Good z → Good (f z a))
    (symmetric : ∀ {a b}, Independent a b → Independent b a)
    (comm : ∀ {a b z}, Independent a b → Good z → f (f z a) b = f (f z b) a) {xs ys : List α}
    (perm : xs.Perm ys) (independent : xs.Pairwise Independent) {z : β} (good : Good z) :
    xs.foldl f z = ys.foldl f z := by
  induction perm generalizing z with
  | nil => rfl
  | cons a _ ih => exact ih (List.pairwise_cons.1 independent).2 (keeps z a good)
  | swap a b xs =>
    have apart := (List.pairwise_cons.1 independent).1 a List.mem_cons_self
    exact congrArg (xs.foldl f) (comm apart good)
  | trans first _ ih ih' =>
    exact (ih independent good).trans (ih' ((first.pairwise_iff symmetric).1 independent) good)

namespace Gateway

/-! ## Rewriting one key -/

namespace Assignment

variable {requests : String → Option PartyRequest} {a b : Assignment}

/-- Two assignments are of different parties whose requests share no player. -/
structure Independent (requests : String → Option PartyRequest) (a b : Assignment) : Prop where
  party : a.party ≠ b.party
  players : ∀ {r r'}, requests a.party = some r → requests b.party = some r' →
    ∀ x ∈ r.party.players, x ∉ r'.party.players

theorem Independent.symm (h : Independent requests a b) : Independent requests b a :=
  ⟨Ne.symm h.party, fun stored stored' x hx hx' => h.players stored' stored x hx' hx⟩

/-- Keys that hold neither a request nor a party nor a queue keep their values. -/
theorem rewrite_other {key : Key} (player : ∀ x, key ≠ .entry PlayerRequest x)
    (party : ∀ p, key ≠ .entry Party p) (request : ∀ p, key ≠ .entry PartyRequest p)
    (queue : ∀ q, key ≠ .queue q) (a : Assignment) (r : PartyRequest) (old : Option Value) :
    a.rewrite r key old = old := by
  have among : key ∉ r.party.players.map (Key.entry PlayerRequest) := by
    intro mem
    obtain ⟨x, -, same⟩ := List.mem_map.1 mem
    exact player x same.symm
  unfold rewrite
  cases a.decision.phase? <;> simp only [among, party, request, queue, if_false]

theorem rewrite_comm (h : Independent requests a b) {r r' : PartyRequest}
    (stored : requests a.party = some r) (stored' : requests b.party = some r') (key : Key)
    {old : Option Value} (usable : ∀ q, key = .queue q → Value.Usable old) :
    b.rewrite r' key (a.rewrite r key old) = a.rewrite r key (b.rewrite r' key old) := by
  by_cases player : ∃ x, key = .entry PlayerRequest x
  · obtain ⟨x, rfl⟩ := player
    simp only [rewrite_player]
    by_cases listed : x ∈ r.party.players
    · rw [if_neg (h.players stored stored' x listed), if_neg (h.players stored stored' x listed)]
    · rw [if_neg listed, if_neg listed]
  by_cases party : ∃ p, key = .entry Party p
  · obtain ⟨p, rfl⟩ := party
    simp only [rewrite_party]
    cases a.decision.phase? <;> cases b.decision.phase? <;> dsimp only
    by_cases here : p = a.party
    · simp only [here, h.party, if_true, if_false]
    · simp only [here, if_false]
  by_cases request : ∃ p, key = .entry PartyRequest p
  · obtain ⟨p, rfl⟩ := request
    simp only [rewrite_request]
    by_cases gone : a.decision.phase?.isSome ∧ p = a.party
    · rw [if_pos gone, if_pos gone, ite_self]
    · rw [if_neg gone, if_neg gone]
  by_cases queue : ∃ q, key = .queue q
  · obtain ⟨q, rfl⟩ := queue
    simp only [rewrite_queue]
    by_cases here : a.decision.phase? = none ∧ q = r.matchmakingType
    · by_cases there : b.decision.phase? = none ∧ q = r'.matchmakingType
      · rw [if_pos here, if_pos there, if_pos there, if_pos here]
        exact Value.enqueue_comm h.party (usable q rfl)
      · rw [if_neg there, if_neg there]
    · rw [if_neg here, if_neg here]
  · have other := rewrite_other (not_exists.1 player) (not_exists.1 party) (not_exists.1 request)
      (not_exists.1 queue)
    rw [other a r old, other b r' old, other a r old]

theorem usable_rewrite (a : Assignment) (r : PartyRequest) (key : Key) {old : Option Value}
    (usable : Value.Usable old) : Value.Usable (a.rewrite r key old) := by
  have absent : Value.Usable none := fun _ same => by contradiction
  unfold rewrite
  split
  · exact usable.revise
  split
  · split
    · exact usable.revise
    · split
      · exact absent
      · exact usable
  · split
    · exact usable.enqueue _
    · exact usable

end Assignment

/-! ## Applying assignments in any order -/

/-- What is needed to apply assignments in any order. -/
structure Ready (requests : String → Option PartyRequest) (as : List Assignment)
    (ks : Keyspace) : Prop where
  /-- They are of different parties without a common player. -/
  independent : as.Pairwise (Assignment.Independent requests)
  /-- Each of them is applicable. -/
  applicable : ∀ a ∈ as, ∃ r, requests a.party = some r ∧ a.Applicable r ks

section

variable {requests : String → Option PartyRequest} {a b : Assignment} {r r' : PartyRequest}
  {ks ks' : Keyspace} {as : List Assignment}

/-- An assignment stays applicable when an independent one is applied. -/
theorem Assignment.Applicable.rewritten (h : b.Applicable r' ks)
    (independent : Independent requests a b) (stored : requests a.party = some r)
    (stored' : requests b.party = some r') (changes : a.Rewrites r ks ks') :
    b.Applicable r' ks' where
  request := by
    rw [changes.request, if_neg fun gone => independent.party gone.2.symm]
    exact h.request
  party := by
    rw [changes.party]
    split
    · rw [if_neg independent.party.symm]
      exact h.party
    · exact h.party
  players x hx := by
    have same := (changes (.entry PlayerRequest x)).trans (rewrite_player a r x _)
    rw [if_neg fun listed => independent.players stored stored' x listed hx] at same
    obtain ⟨found, read⟩ := h.players x hx
    exact ⟨found, (Keyspace.get_congr same).trans read⟩
  queue waits := by
    obtain ⟨set, shown⟩ := h.queue waits
    exact ⟨_, changes.queue shown⟩

theorem Ready.step (h : Ready requests (a :: as) ks) (stored : requests a.party = some r)
    (changes : a.Rewrites r ks ks') : Ready requests as ks' := by
  obtain ⟨apart, independent⟩ := List.pairwise_cons.1 h.independent
  refine ⟨independent, fun b hb => ?_⟩
  obtain ⟨r', stored', applicable⟩ := h.applicable b (List.mem_cons_of_mem a hb)
  exact ⟨r', stored', applicable.rewritten (apart b hb) stored stored' changes⟩

theorem Ready.perm (h : Ready requests as ks) {as' : List Assignment} (perm : as.Perm as') :
    Ready requests as' ks :=
  ⟨(perm.pairwise_iff Assignment.Independent.symm).1 h.independent,
    fun a ha => h.applicable a (perm.mem_iff.2 ha)⟩

/-- The first assignment of a list is applied as the requests say. -/
theorem Ready.stored_of_applicable (h : Ready requests (a :: as) ks) (applicable : a.Applicable r ks) :
    requests a.party = some r := by
  obtain ⟨r', stored, applicable'⟩ := h.applicable a List.mem_cons_self
  obtain rfl := Option.some.inj (applicable'.request.symm.trans applicable.request)
  exact stored

/-- What is left to apply is ready after the assignments in front of it. -/
theorem Ready.later {done rest : List Assignment} (h : Ready requests (done ++ rest) ks)
    (applied : Applied done ks ks') : Ready requests rest ks' := by
  induction applied with
  | nil => exact h
  | cons applicable changes _ ih =>
    exact ih (h.step (h.stored_of_applicable applicable) changes)

/-- Where assignments can be applied in any order, all of them are. -/
theorem Ready.applied (h : Ready requests as ks) {result : Except GatewayError Unit}
    (ends : Assigns as ks result ks') : result = .ok () ∧ Applied as ks ks' := by
  cases result with
  | ok _ => exact ⟨rfl, ends⟩
  | error e =>
    obtain ⟨done, a, rest, rfl, applied, inapplicable⟩ := ends
    obtain ⟨r, -, applicable⟩ := (h.later applied).applicable a List.mem_cons_self
    exact absurd applicable (inapplicable r)

/-- A party that is not assigned waits as before. -/
theorem Applied.waits_of_ne (applied : Applied as ks ks') {queue p : String} {score : Score}
    (other : ∀ a ∈ as, p ≠ a.party) (waits : ks.Waits queue p score) : ks'.Waits queue p score := by
  induction applied with
  | nil => exact waits
  | cons applicable changes rest ih =>
    obtain ⟨here, there⟩ := List.forall_mem_cons.1 other
    exact ih there (changes.waits_of_ne here waits)

/-- A party that goes back waits in its queue at the score of its request, whatever parties are
assigned in front of it and behind it. -/
theorem Applied.waits (applied : Applied as ks ks')
    (distinct : as.Pairwise fun a b => a.party ≠ b.party) (mem : a ∈ as)
    (requeued : a.decision = .requeued) (stored : ks.record? PartyRequest a.party = some r) :
    ks'.Waits r.matchmakingType a.party r.score := by
  induction applied with
  | nil => exact absurd mem List.not_mem_nil
  | @cons b as r' ks mid ks' applicable changes rest ih =>
    obtain ⟨apart, distinct⟩ := List.pairwise_cons.1 distinct
    rcases List.mem_cons.1 mem with rfl | later
    · obtain rfl := Option.some.inj (stored.symm.trans applicable.request)
      obtain ⟨set, shown⟩ := applicable.queue requeued
      have back : a.decision.phase? = none := by rw [requeued, Decision.phase?]
      exact rest.waits_of_ne apart ⟨_, changes.queue shown, by simp [back]⟩
    · refine ih distinct later ?_
      rw [changes.request, if_neg fun gone => apart a later gone.2.symm]
      exact stored

/-- What becomes of the value at a key where a party is assigned that has a request. -/
def Assignment.rewriteOf (requests : String → Option PartyRequest) (key : Key)
    (old : Option Value) (a : Assignment) : Option Value :=
  (requests a.party).elim old fun r => a.rewrite r key old

/-- Assignments leave at each key what they make of its value one after the other. -/
theorem Ready.getElem? (h : Ready requests as ks) (applied : Applied as ks ks') (key : Key) :
    ks'[key]? = as.foldl (Assignment.rewriteOf requests key) ks[key]? := by
  induction applied with
  | nil => rfl
  | cons applicable changes rest ih =>
    have stored := h.stored_of_applicable applicable
    rw [ih (h.step stored changes), changes, List.foldl_cons, Assignment.rewriteOf, stored]
    rfl

/-- Assignments that are ready leave the same store in any order. -/
theorem Ready.confluent (h : Ready requests as ks) (queues : ks.Queues)
    {as' : List Assignment} (perm : as.Perm as') {ks₁ ks₂ : Keyspace} (first : Applied as ks ks₁)
    (second : Applied as' ks ks₂) : ks₁ = ks₂ := by
  refine Std.ExtTreeMap.ext_getElem? fun key => ?_
  rw [h.getElem? first, (h.perm perm).getElem? second]
  refine foldl_perm (fun old => ∀ q, key = .queue q → Value.Usable old) ?_
    Assignment.Independent.symm ?_ perm h.independent ?_
  · intro old a good q here
    unfold Assignment.rewriteOf
    cases requests a.party with
    | none => exact good q here
    | some r => exact Assignment.usable_rewrite a r key (good q here)
  · intro a b old independent good
    unfold Assignment.rewriteOf
    cases stored : requests a.party with
    | none => rfl
    | some r =>
      cases stored' : requests b.party with
      | none => rfl
      | some r' => exact Assignment.rewrite_comm independent stored stored' key good
  · rintro q rfl set shown
    obtain ⟨set', shown', agrees⟩ := queues q
    rw [Keyspace.sortedSetAt?, shown] at shown'
    exact Option.some.inj shown' ▸ agrees

end

end Gateway

/-! ## Calls that are answered to their end -/

namespace World

variable {w : World} {i : Nat}

/-- A call that does not assign keeps what clients hold until it returns. -/
theorem held_answered {L : Ledger} (plain : Safe.Plain i L) (r : Request) (answer : r.Answer)
    (ks : Keyspace) : (L.answered i r answer ks).held = L.held := by
  have asked : Safe.Plain i (L.ask i) := plain.update Progress.activity_ask
  obtain ⟨c, record, -⟩ := id asked
  have none : (L.ask i).released? i = none := by
    rw [Ledger.released?, record, Option.bind_some, asked.next?_eq record]
    rfl
  unfold Ledger.answered
  split
  · refine List.filter_eq_self.2 fun pair _ => ?_
    rw [none]
    rfl
  · rfl

/-- How far a call is that is answered while nobody else is at work: it waits for an answer,
or it has returned and its client holds what it hands out. -/
inductive Stands (i client : Nat) (held : List (Nat × String)) :
    Call (List (Entry PartyRequest)) → Keyspace → Prop where
  | waits {w : World} {r : Request} {next : r.Answer → Call (List (Entry PartyRequest))}
    (reach : Reachable .custody w) (plain : Safe.Plain i w.ledger)
    (owner : (w.ledger.calls i).map Progress.client = some client)
    (rest : w.rest i = .ask r next) (same : w.ledger.held = held) :
    Stands i client held (.ask r next) w.ledger.keyspace
  | returned {w : World} {result : Except GatewayError (List (Entry PartyRequest))}
    (reach : Reachable .custody w)
    (handed : w.ledger.held = Ledger.handed client result ++ held) :
    Stands i client held (.done result) w.ledger.keyspace

theorem Stands.answered {client : Nat} {held : List (Nat × String)} {r : Request}
    {next : r.Answer → Call (List (Entry PartyRequest))} {ks ks' : Keyspace} {answer : r.Answer}
    (h : Stands i client held (.ask r next) ks) (answered : Answered ks r answer ks') :
    Stands i client held (next answer) ks' := by
  cases h with
  | @waits w _ _ reach plain owner rest same =>
    have step := Step.advance (D := .custody) i r next rest (fun progress a record _ coming => by
      rw [plain.next?_eq record] at coming
      contradiction) answer ks' answered
    have keyspace := w.keyspace_advance (i := i) (next answer) answered
    have kept := (held_answered plain r answer ks').trans same
    have owner' : ((w.ledger.answered i r answer ks').calls i).map Progress.client = some client :=
      (Ledger.map_answered Progress.client_ask (fun _ _ _ => rfl) r answer ks').trans owner
    have left : (w.advance i r answer ks' (next answer)).rest i = next answer :=
      Function.update_self i _ _
    cases form : next answer with
    | done result =>
      rw [form] at step keyspace
      obtain ⟨progress, record, rfl⟩ := Option.map_eq_some_iff.1 owner'
      refine keyspace ▸ .returned (reach.step step) (congrArg₂ _ ?_ kept)
      rw [record]
      rfl
    | ask r' next' =>
      rw [form] at step keyspace left
      exact keyspace ▸ .waits (reach.step step) plain.answered owner' left kept

/-- A call that does not assign may be answered to its end with nobody else at work.  It
leaves the store that its procedure leaves, and its client holds what it hands out. -/
theorem Reachable.finishes {r : Request} {next : r.Answer → Call (List (Entry PartyRequest))}
    (reach : Reachable .custody w) (plain : Safe.Plain i w.ledger) {client : Nat}
    (owner : (w.ledger.calls i).map Progress.client = some client)
    (waits : w.rest i = .ask r next) {c : Connection} (calm : c.database.faults = [])
    (store : c.database.keyspace = w.ledger.keyspace) :
    let run := (w.rest i).run Connection.serve c
    ∃ w', Reachable .custody w' ∧ w'.ledger.keyspace = run.2.database.keyspace ∧
      w'.ledger.held = Ledger.handed client run.1 ++ w.ledger.held := by
  have stands : Stands i client w.ledger.held (w.rest i) c.database.keyspace := by
    rw [waits, store]
    exact .waits reach plain owner waits rfl
  have ended := Procedure.run_induction Stands.answered calm stands
  intro run
  generalize run.2.database.keyspace = ks at ended ⊢
  cases ended with
  | returned reach handed => exact ⟨_, reach, rfl, handed⟩

end World

namespace Gateway

/-! ## In reachable worlds -/

/-- Different parties with requests can be assigned in any order. -/
theorem Ready.of_custody {L : Ledger} (custody : Custody L) (agreed : Membership L.keyspace)
    {as : List Assignment} (distinct : as.Pairwise fun a b => a.party ≠ b.party)
    (stored : ∀ a ∈ as, ∃ r, L.keyspace.record? PartyRequest a.party = some r) :
    Ready (L.keyspace.record? PartyRequest) as L.keyspace where
  independent := distinct.imp fun other => ⟨other, fun stored stored' x listed listed' =>
    other (custody.player_once agreed stored stored' (Custody.mem_players.1 listed)
      (Custody.mem_players.1 listed'))⟩
  applicable a ha := by
    obtain ⟨r, stored⟩ := stored a ha
    exact ⟨r, stored, .of_custody custody stored⟩

/-- With nobody else at work, assignments of different parties that clients hold are all
carried out. -/
theorem assign_held {w : World} (reach : World.Reachable .custody w) {as : List Assignment}
    (distinct : as.Pairwise fun a b => a.party ≠ b.party)
    (held : ∀ a ∈ as, ∃ client, (client, a.party) ∈ w.ledger.held) {c : Connection}
    (calm : c.database.faults = []) (store : c.database.keyspace = w.ledger.keyspace) :
    let run := (assign as).run Connection.serve c
    Ready (w.ledger.keyspace.record? PartyRequest) as w.ledger.keyspace ∧
      run.1 = .ok () ∧ Applied as w.ledger.keyspace run.2.database.keyspace := by
  have custody := Custody.of_reachable reach
  have agreed := Membership.of_reachable reach.free
  have filed := Filed.of_custody custody agreed
  have ready : Ready (w.ledger.keyspace.record? PartyRequest) as w.ledger.keyspace := by
    refine .of_custody custody agreed distinct fun a ha => ?_
    obtain ⟨client, held⟩ := held a ha
    exact custody.stored (.held client) held
  exact ⟨ready, ready.applied (assign_solo c.settings filed as c calm rfl store)⟩

/-- Assignments of different parties that clients hold commute: with nobody else at work
they are all carried out, and every order leaves the same store. -/
theorem assignments_commute {w : World} (reach : World.Reachable .custody w)
    {as : List Assignment} (distinct : as.Pairwise fun a b => a.party ≠ b.party)
    (held : ∀ a ∈ as, ∃ client, (client, a.party) ∈ w.ledger.held) :
    ∃ ks, ∀ as', as.Perm as' → ∀ c : Connection, c.database.faults = [] →
      c.database.keyspace = w.ledger.keyspace →
        ((assign as').run Connection.serve c).1 = .ok () ∧
          ((assign as').run Connection.serve c).2.database.keyspace = ks := by
  have queues := (Custody.of_reachable reach).queues
  let c₀ : Connection := ⟨⟨w.ledger.keyspace, [], 0⟩, .default, 0⟩
  obtain ⟨ready, -, applied⟩ := assign_held reach distinct held (c := c₀) rfl rfl
  refine ⟨((assign as).run Connection.serve c₀).2.database.keyspace,
    fun as' perm c calm store => ?_⟩
  have distinct' := (perm.pairwise_iff fun other => Ne.symm other).1 distinct
  obtain ⟨-, ended, applied'⟩ := assign_held reach distinct'
    (fun a ha => held a (perm.mem_iff.2 ha)) calm store
  exact ⟨ended, (ready.confluent queues perm applied applied').symm⟩

/-- A client that pops parties with nobody else at work holds them, their requests are stored
as before, and they do not wait any more. -/
theorem held_after_pop {w : World} (reach : World.Reachable .custody w) {i : Nat}
    (new : w.ledger.calls i = none) (client : Nat) {queue : String} {waiting : List ScoredMember}
    (line : w.ledger.keyspace.members (.queue queue) = .ok waiting) {count : Nat}
    (positive : 0 < count) (enough : count ≤ waiting.length) :
    ∃ w', World.Reachable .custody w' ∧
      w'.ledger.held = (waiting.take count).map (fun m => (client, m.member)) ++ w.ledger.held ∧
      w'.ledger.keyspace.members (.queue queue) = .ok (waiting.drop count) ∧
      ∀ m ∈ waiting.take count, ∃ r, w'.ledger.keyspace.record? PartyRequest m.member = some r ∧
        r.matchmakingType = queue ∧ r.score = m.score := by
  have custody := Custody.of_reachable reach
  have agreed := Membership.of_reachable reach.free
  obtain ⟨set, shown, agrees⟩ := custody.queues queue
  have manned := Manned.of_custody custody agreed shown agrees
  obtain rfl := Except.ok.inj ((Keyspace.members_eq shown).symm.trans line)
  have ends := manned.pop_solo positive (Nat.le_refl count)
    ⟨⟨w.ledger.keyspace, [], 0⟩, ⟨count, 0⟩, 0⟩ rfl rfl rfl
  obtain ⟨requests, popped, places, left⟩ := ends.handed enough
  have started := reach.step (.start i client (.pop queue count) new trivial)
  have record : (w.start i client (.pop queue count)).ledger.calls i =
      some ⟨client, .pop queue count, 0, false, []⟩ := Function.update_self i _ _
  have rest : (w.start i client (.pop queue count)).rest i = pop queue count :=
    Function.update_self i _ _
  obtain ⟨w', reach', keyspace, held⟩ := started.finishes (Safe.plain_start (by simp))
    (congrArg (Option.map Progress.client) record)
    (rest.trans (pop_eq (Nat.ne_of_gt positive)))
    (c := ⟨⟨w.ledger.keyspace, [], 0⟩, ⟨count, 0⟩, 0⟩) rfl rfl
  rw [rest] at keyspace held
  refine ⟨w', reach', ?_, keyspace ▸ left, fun m hm => ?_⟩
  · rw [held, popped, ← places, List.map_map]
    rfl
  · have waits : w.ledger.keyspace.Waits queue m.member m.score :=
      ⟨set, shown, agrees.mem_members.1 (List.mem_of_mem_take hm)⟩
    obtain ⟨r, stored, -, type, score⟩ := custody.request_of_waits waits
    exact ⟨r, keyspace ▸ (ends.record?_request m.member).trans stored, type, score⟩

/-- Another client pops both parties, and every order puts them back in the same way: they
wait in the queue again at the scores at which they joined it. -/
theorem both_orders_of_two :
    ∃ w, World.Reachable .custody w ∧ (2, "p") ∈ w.ledger.held ∧ (2, "q") ∈ w.ledger.held ∧
      w.ledger.keyspace.members (.queue "duel") = .ok [] ∧
      ∃ ks, ks.Waits "duel" "p" (.ofNat 0) ∧ ks.Waits "duel" "q" (.ofNat 1) ∧
        ∀ as ∈ ([[⟨"p", .requeued⟩, ⟨"q", .requeued⟩],
            [⟨"q", .requeued⟩, ⟨"p", .requeued⟩]] : List (List Assignment)),
          ∀ c : Connection, c.database.faults = [] → c.database.keyspace = w.ledger.keyspace →
            ((assign as).run Connection.serve c).1 = .ok () ∧
              ((assign as).run Connection.serve c).2.database.keyspace = ks := by
  obtain ⟨w, reach, held, left, stored⟩ := held_after_pop reachable_pairedWorld
    (calls_pairedWorld (Nat.lt_succ_self 3)) 2 members_pairedWorld Nat.two_pos (Nat.le_refl 2)
  have p : (2, "p") ∈ w.ledger.held := held ▸ List.mem_append_left _ (by simp)
  have q : (2, "q") ∈ w.ledger.held := held ▸ List.mem_append_left _ (by simp)
  have clients : ∀ a ∈ ([⟨"p", .requeued⟩, ⟨"q", .requeued⟩] : List Assignment),
      ∃ client, (client, a.party) ∈ w.ledger.held :=
    List.forall_mem_cons.2 ⟨⟨2, p⟩, List.forall_mem_singleton.2 ⟨2, q⟩⟩
  have distinct : ([⟨"p", .requeued⟩, ⟨"q", .requeued⟩] : List Assignment).Pairwise
      fun a b => a.party ≠ b.party := List.pairwise_pair.2 (by decide : "p" ≠ "q")
  obtain ⟨ks, same⟩ := assignments_commute reach distinct clients
  have back (a : Assignment) (mem : a ∈ ([⟨"p", .requeued⟩, ⟨"q", .requeued⟩] : List Assignment))
      (requeued : a.decision = .requeued) (r : PartyRequest)
      (stored : w.ledger.keyspace.record? PartyRequest a.party = some r) :
      ks.Waits r.matchmakingType a.party r.score := by
    let c : Connection := ⟨⟨w.ledger.keyspace, [], 0⟩, .default, 0⟩
    obtain ⟨-, -, applied⟩ := assign_held reach distinct clients (c := c) rfl rfl
    rw [(same _ (.refl _) c rfl rfl).2] at applied
    exact applied.waits distinct mem requeued stored
  refine ⟨w, reach, p, q, left, ks, ?_, ?_, ?_⟩
  · obtain ⟨r, stored, type, score⟩ := stored ⟨"p", .ofNat 0⟩ List.mem_cons_self
    have waits := back ⟨"p", .requeued⟩ (by simp) rfl r stored
    rw [type, score] at waits
    exact waits
  · obtain ⟨r, stored, type, score⟩ := stored ⟨"q", .ofNat 1⟩ (by simp)
    have waits := back ⟨"q", .requeued⟩ (by simp) rfl r stored
    rw [type, score] at waits
    exact waits
  · exact List.forall_mem_cons.2 ⟨same _ (.refl _), List.forall_mem_singleton.2
      (same _ (.swap _ _ _))⟩

end Gateway

end Matchmaking
