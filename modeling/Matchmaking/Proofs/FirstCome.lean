import Matchmaking.Proofs.Assignments
import Matchmaking.Proofs.Dequeues
import Matchmaking.Proofs.Origins

/-!
# First come, first served

The parties that wait in a queue stand in line (`Line`): each of them once, at the time of
the call that made its request, behind those that joined earlier.  A party that went back
to the queue stands where it stood, because its request is the one that it joined with
(`World.JoinedBy`).  Two parties never stand at one time if no two calls to join read one
time off their clocks (`Ledger.Ticking`).

A pop with nobody else at work hands out the front of the line, or changes nothing where
the line is too short (`PopEnds`).  Nothing that it reads can be missing: in every
reachable world the requests of a waiting party and of its players are stored.
-/

namespace Matchmaking

/-! ## Standing in line -/

/-- The time that a call to join reads off its clock. -/
def Activity.time? : Activity → Option Score
  | join _ _ _ now => some now
  | _ => none

/-- Calls to join that read one time are one call, as where a clock shows no time twice. -/
def Ledger.Ticking (L : Ledger) : Prop :=
  ∀ i j now, (L.activity? i).bind Activity.time? = some now →
    (L.activity? j).bind Activity.time? = some now → i = j

/-- What waits in a queue is a party with a request for the queue at its score. -/
theorem Custody.request_of_waits {L : Ledger} (h : Custody L) {queue p : String} {score : Score}
    (waits : L.keyspace.Waits queue p score) : ∃ r,
      L.keyspace.record? PartyRequest p = some r ∧ r.id = p ∧ r.matchmakingType = queue ∧
        r.score = score := by
  obtain ⟨r, stored⟩ := h.stored .waiting ⟨queue, score, waits⟩
  have kept := (h.orderly p).kept stored
  obtain ⟨rfl, rfl⟩ := kept.waits waits
  exact ⟨r, stored, kept.id, rfl, rfl⟩

namespace World

variable {w : World}

/-- Stored requests of parties that joined at one time are those of one party. -/
theorem Reachable.eq_of_score (reach : Reachable .custody w) (ticking : w.ledger.Ticking)
    {p q : String} {r r' : PartyRequest}
    (stored : w.ledger.keyspace.record? PartyRequest p = some r)
    (stored' : w.ledger.keyspace.record? PartyRequest q = some r') (same : r.score = r'.score) :
    p = q := by
  have custody := Custody.of_reachable reach
  have agreed := Membership.of_reachable reach.free
  have party := ((custody.orderly p).kept stored).party
  have party' := ((custody.orderly q).kept stored').party
  obtain ⟨i, joined⟩ := reach.joinedBy stored
  obtain ⟨j, joined'⟩ := reach.joinedBy stored'
  have call := joined.activity?
  have call' := joined'.activity?
  obtain rfl : i = j := by
    refine ticking i j r.score ?_ ?_
    · rw [call]
      rfl
    · rw [call', same]
      rfl
  -- Both requests are of the party that the leader named by the call was in.
  have leaders : r.party.leader = r'.party.leader := by
    have calls := Option.some.inj (call.symm.trans call')
    injection calls
  have led {P : Party} {p : String} (stored : w.ledger.keyspace.record? Party p = some P) :
      P.leader ∈ P.members :=
    Std.ExtTreeMap.mem_iff_isSome_getElem?.2 (by rw [(agreed.sound stored).led]; rfl)
  exact agreed.unique party party' (led party) (leaders ▸ led party')

/-- A list of members stands in line in a queue. -/
structure Line (w : World) (queue : String) (waiting : List ScoredMember) : Prop where
  /-- The store lists them in this order. -/
  listed : w.ledger.keyspace.members (.queue queue) = .ok waiting
  /-- They are all that wait in the queue. -/
  all : ∀ p score, w.ledger.keyspace.Waits queue p score ↔ ⟨p, score⟩ ∈ waiting
  /-- Each of them waits behind those that joined earlier. -/
  ordered : waiting.Pairwise fun m m' => m.score.Below m'.score
  /-- Each of them waits at the time of the call that made its request for the queue, and
  the request has been there since then. -/
  joined : ∀ m ∈ waiting, ∃ i r, w.ledger.keyspace.record? PartyRequest m.member = some r ∧
    r.matchmakingType = queue ∧ r.score = m.score ∧ JoinedBy i m.member r w

/-- In every reachable world the parties of a queue stand in line. -/
theorem Reachable.line (reach : Reachable .custody w) (ticking : w.ledger.Ticking)
    {queue : String} {set : SortedSet}
    (shown : w.ledger.keyspace.sortedSetAt? (.queue queue) = some set) (agrees : set.Agrees) :
    Line w queue set.members := by
  have custody := Custody.of_reachable reach
  have all (p : String) (score : Score) :
      w.ledger.keyspace.Waits queue p score ↔ ⟨p, score⟩ ∈ set.members := by
    rw [agrees.mem_members]
    refine ⟨fun ⟨set', shown', there⟩ => ?_, fun there => ⟨set, shown, there⟩⟩
    obtain rfl := Option.some.inj (shown.symm.trans shown')
    exact there
  have request {m : ScoredMember} (hm : m ∈ set.members) :=
    custody.request_of_waits ((all m.member m.score).2 hm)
  refine ⟨Keyspace.members_eq shown, all, ?_, fun m hm => ?_⟩
  · refine agrees.sorted.imp_of_mem fun {m m'} hm hm' before => ?_
    rcases ScoredMember.precedes_iff_before.1 before with below | ⟨same, less⟩
    · exact below
    · obtain ⟨r, stored, -, -, score⟩ := request hm
      obtain ⟨r', stored', -, -, score'⟩ := request hm'
      have one : m.member = m'.member :=
        reach.eq_of_score ticking stored stored' (score.trans (same.trans score'.symm))
      exact absurd less (one ▸ List.lt_irrefl _)
  · obtain ⟨r, stored, -, type, score⟩ := request hm
    obtain ⟨i, joined⟩ := reach.joinedBy stored
    exact ⟨i, r, stored, type, score, joined⟩

end World

/-! ## Reading what waits -/

/-- Where an entry is stored for each member of a list, at the place of the member, the
entries that are read stand in the places of the list. -/
theorem Keyspace.place_stored {α : Type} [Record α] [Queued α] {ks : Keyspace}
    {popped : List ScoredMember}
    (there : ∀ m ∈ popped, ∃ e, ks.entry? α m.member = some e ∧ e.place = m) :
    (ks.stored α (popped.map (·.member))).map Entry.place = popped := by
  induction popped with
  | nil => rfl
  | cons m popped ih =>
    obtain ⟨⟨e, found, here⟩, rest⟩ := List.forall_mem_cons.1 there
    have first : ks.stored α ((m :: popped).map (·.member)) =
        e :: ks.stored α (popped.map (·.member)) := List.filterMap_cons_some found
    rw [first, List.map_cons, here, ih rest]

namespace Gateway

/-! ## Popping alone -/

section

variable {ks : Keyspace} {requests : List (Entry PartyRequest)}

/-- The players of some parties. -/
def playersOf (requests : List (Entry PartyRequest)) : List String :=
  requests.flatMap (·.record.party.players)

/-- What becomes of the store where the players of some parties are set to matching. -/
def matchingAll (requests : List (Entry PartyRequest)) (ks : Keyspace) : Keyspace :=
  (Custody.updating (ks.stored PlayerRequest (playersOf requests)) (·.withState .matching)).effect ks

theorem mem_playersOf {x : String} :
    x ∈ playersOf requests ↔ ∃ e ∈ requests, x ∈ e.record.party.members := by
  simp only [playersOf, List.mem_flatMap, Custody.mem_players]

variable (own : ks.OwnIds PlayerRequest)

include own

theorem getElem?_matchingAll (key : Key) : (matchingAll requests ks)[key]? =
    if key ∈ (playersOf requests).map (Key.entry PlayerRequest) then
      Value.revise (fun pr : PlayerRequest => pr.withState .matching) ks[key]?
    else ks[key]? :=
  Keyspace.getElem?_update_stored own (f := fun pr : PlayerRequest => pr.withState .matching)
    (fun _ => rfl) (fun _ => ⟨_, rfl⟩) (fun _ _ => rfl) key

theorem record?_matchingAll {x : String} (listed : x ∈ playersOf requests) :
    (matchingAll requests ks).record? PlayerRequest x =
      (ks.record? PlayerRequest x).map (·.withState .matching) := by
  refine Keyspace.record?_of_revise (fun _ => PlayerRequest.readable _) ?_
  rw [getElem?_matchingAll own, if_pos (List.mem_map_of_mem listed)]

theorem getElem?_matchingAll_other {key : Key}
    (other : ∀ x ∈ playersOf requests, key ≠ .entry PlayerRequest x) :
    (matchingAll requests ks)[key]? = ks[key]? := by
  rw [getElem?_matchingAll own, if_neg]
  intro among
  obtain ⟨x, hx, rfl⟩ := List.mem_map.1 among
  exact other x hx rfl

variable (settings : Settings) (readable : ∀ x ∈ playersOf requests, ks.CanRead PlayerRequest x)

include readable

/-- With nobody else at work the players are set to matching at the first attempt. -/
theorem tryMatching_solo : Procedure.Solo settings
    (fun result ks' => (∃ commit, result = .ok (.ok commit)) ∧ ks' = matchingAll requests ks)
    (tryMatching requests) ks := by
  rw [tryMatching, playerRequests_eq]
  have holds := Keyspace.holds_update_stored own (f := (·.withState .matching)) (fun _ => rfl)
    (playersOf requests)
  refine .bind (.getStored (fun _ => .attempt (.transact ?_ (fun fails => ?_)
    (fun _ key type misfit => ?_) fun _ _ id => ?_)) fun x hx e unreadable => ?_)
  · exact List.forall_mem_singleton.2 (List.forall_mem_map.2 fun _ _ => ⟨_, rfl⟩)
  · exact absurd (List.forall_mem_append.2 ⟨holds, List.forall_mem_nil _⟩) fails
  · rw [Keyspace.firstMismatch_untyped] at misfit
    · contradiction
    · exact List.forall_mem_append.2
        ⟨fun _ => Operation.requiredType_of_writeCommands, List.forall_mem_nil _⟩
  · exact ⟨⟨_, rfl⟩, rfl⟩
  · obtain ⟨found, read⟩ := readable x hx
    rw [read] at unreadable
    contradiction

theorem setMatching_solo (retries : Nat) : Procedure.Solo settings
    (fun result ks' => result = .ok () ∧ ks' = matchingAll requests ks)
    (setMatching requests retries) ks := by
  have attempt := tryMatching_solo own settings readable
  -- The attempts that are left do not matter, because the first one succeeds.
  cases retries <;>
  · refine .bind (attempt.mono ?_)
    rintro _ _ ⟨⟨commit, rfl⟩, rfl⟩
    exact .done ⟨rfl, rfl⟩

end

/-- With nobody else at work, parties whose requests are stored are taken over. -/
theorem takeOver_solo {ks : Keyspace} (settings : Settings) (own : ks.OwnIds PlayerRequest)
    {popped : List ScoredMember}
    (parties : ∀ m ∈ popped, ∃ e, ks.entry? PartyRequest m.member = some e ∧
      ∀ x ∈ e.record.party.players, ks.CanRead PlayerRequest x) :
    let requests := ks.stored PartyRequest (popped.map (·.member))
    Procedure.Solo settings
      (fun result ks' => result = .ok requests ∧ ks' = matchingAll requests ks)
      (takeOver popped) ks := by
  intro requests
  refine .bind (.getStored (fun _ => .bind ((setMatching_solo own settings ?_ _).mono ?_))
    fun p hp e unreadable => ?_)
  · intro x hx
    obtain ⟨e, he, hx⟩ := List.mem_flatMap.1 hx
    obtain ⟨p, hp, found⟩ := Keyspace.mem_stored.1 he
    obtain ⟨m, hm, rfl⟩ := List.mem_map.1 hp
    obtain ⟨e', found', readable⟩ := parties m hm
    obtain rfl := Option.some.inj (found.symm.trans found')
    exact readable x hx
  · rintro _ _ ⟨rfl, rfl⟩
    exact .done ⟨rfl, rfl⟩
  · obtain ⟨m, hm, rfl⟩ := List.mem_map.1 hp
    obtain ⟨e', found, -⟩ := parties m hm
    rw [Keyspace.get_of_entry? found] at unreadable
    contradiction

/-- What a pop of a number of parties ends with where some members wait in line. -/
inductive PopEnds (ks : Keyspace) (queue : String) (count : Nat) (waiting : List ScoredMember) :
    Except GatewayError (List (Entry PartyRequest)) → Keyspace → Prop where
  /-- Fewer wait than were asked for, and nothing changes. -/
  | tooFew (few : waiting.length < count) : PopEnds ks queue count waiting
      (.error (.resourceExhausted ("not enough entries in " ++ (Key.queue queue).text))) ks
  /-- The requests of those in front are handed out in their order, and their players are
  set to matching.  The others wait as before, and nothing else changes. -/
  | handedOut {requests : List (Entry PartyRequest)} {ks' : Keyspace}
    (enough : count ≤ waiting.length)
    (front : requests.map Entry.place = waiting.take count)
    (stored : ∀ e ∈ requests, ks.entry? PartyRequest e.id = some e)
    (matching : ∀ e ∈ requests, ∀ x ∈ e.record.party.members, ∃ pr,
      ks.record? PlayerRequest x = some pr ∧
        ks'.record? PlayerRequest x = some (pr.withState .matching))
    (rest : ks'.members (.queue queue) = .ok (waiting.drop count))
    (others : ∀ key : Key, key ≠ .queue queue →
      (∀ e ∈ requests, ∀ x ∈ e.record.party.members, key ≠ .entry PlayerRequest x) →
        ks'[key]? = ks[key]?) : PopEnds ks queue count waiting (.ok requests) ks'

/-- Where enough wait, those in front are handed out and the others stay. -/
theorem PopEnds.handed {ks ks' : Keyspace} {queue : String} {count : Nat}
    {waiting : List ScoredMember} {result : Except GatewayError (List (Entry PartyRequest))}
    (ends : PopEnds ks queue count waiting result ks') (enough : count ≤ waiting.length) :
    ∃ requests, result = .ok requests ∧ requests.map Entry.place = waiting.take count ∧
      ks'.members (.queue queue) = .ok (waiting.drop count) := by
  cases ends with
  | tooFew few => exact absurd few (Nat.not_lt_of_le enough)
  | handedOut _ front _ _ rest _ => exact ⟨_, rfl, front, rest⟩

/-- A pop leaves the requests of parties alone. -/
theorem PopEnds.record?_request {ks ks' : Keyspace} {queue : String} {count : Nat}
    {waiting : List ScoredMember} {result : Except GatewayError (List (Entry PartyRequest))}
    (ends : PopEnds ks queue count waiting result ks') (p : String) :
    ks'.record? PartyRequest p = ks.record? PartyRequest p := by
  cases ends with
  | tooFew few => rfl
  | handedOut _ _ _ _ _ others =>
    exact Keyspace.record?_congr (others _ (Key.compose_ne (by decide) p queue)
      fun e _ x _ => Key.compose_ne (by decide) p x)

/-- Everybody who stands in a queue can be taken off it. -/
structure Manned (ks : Keyspace) (queue : String) (set : SortedSet) : Prop where
  /-- The queue shows the members. -/
  shown : ks.sortedSetAt? (.queue queue) = some set
  /-- The indexes of the queue are in step. -/
  agrees : set.Agrees
  /-- Requests are stored under their own ids. -/
  filed : Filed ks
  /-- Each member has a request at its place, and so have its players. -/
  request : ∀ m ∈ set.members, ∃ e, ks.entry? PartyRequest m.member = some e ∧ e.place = m ∧
    ∀ x ∈ e.record.party.members, ∃ e', ks.entry? PlayerRequest x = some e'

section

variable {ks : Keyspace} {queue : String} {set : SortedSet} (h : Manned ks queue set)
  {count : Nat}

include h

/-- Once the front of a queue is off it, the requests are still there. -/
theorem Manned.parties {mid : Keyspace}
    (same : ∀ key : Key, key ≠ .queue queue → mid[key]? = ks[key]?) :
    ∀ m ∈ set.first count, ∃ e, mid.entry? PartyRequest m.member = some e ∧ e.place = m ∧
      ∀ x ∈ e.record.party.players, mid.CanRead PlayerRequest x := by
  intro m hm
  obtain ⟨e, found, place, players⟩ := h.request m (List.mem_of_mem_take hm)
  have request := same (.entry PartyRequest m.member) (Key.compose_ne (by decide) _ _)
  refine ⟨e, (Keyspace.entry?_congr request).trans found, place, fun x hx => ?_⟩
  obtain ⟨e', found'⟩ := players x (Custody.mem_players.1 hx)
  have player := same (.entry PlayerRequest x) (Key.compose_ne (by decide) _ _)
  exact Keyspace.canRead_of_entry? ((Keyspace.entry?_congr player).trans found')

/-- The parties at the front of a queue are handed out. -/
theorem Manned.handedOut (enough : count ≤ set.members.length) {mid : Keyspace}
    (same : ∀ key : Key, key ≠ .queue queue → mid[key]? = ks[key]?)
    (own : mid.OwnIds PlayerRequest)
    (dropped : mid.sortedSetAt? (.queue queue) = some (set.dropFirst count)) :
    let requests := mid.stored PartyRequest ((set.first count).map (·.member))
    PopEnds ks queue count set.members (.ok requests) (matchingAll requests mid) := by
  intro requests
  have player (x : String) : Key.entry PlayerRequest x ≠ .queue queue :=
    Key.compose_ne (by decide) x queue
  have taken {e : Entry PartyRequest} (he : e ∈ requests) : ∃ m ∈ set.members,
      ks.entry? PartyRequest m.member = some e ∧ m.member = e.id := by
    obtain ⟨p, hp, found⟩ := Keyspace.mem_stored.1 he
    obtain ⟨m, hm, rfl⟩ := List.mem_map.1 hp
    have request := same (.entry PartyRequest m.member) (Key.compose_ne (by decide) _ _)
    have found := (Keyspace.entry?_congr request).symm.trans found
    exact ⟨m, List.mem_of_mem_take hm, found, (h.filed.requests _ e found).symm⟩
  refine .handedOut enough (Keyspace.place_stored fun m hm => ?_) (fun e he => ?_)
    (fun e he x hx => ?_) ?_ fun key queue others => ?_
  · obtain ⟨e, found, place, -⟩ := h.parties same m hm
    exact ⟨e, found, place⟩
  · obtain ⟨m, -, found, here⟩ := taken he
    exact here ▸ found
  · obtain ⟨m, hm, found, -⟩ := taken he
    obtain ⟨e', found', -, players⟩ := h.request m hm
    obtain rfl := Option.some.inj (found.symm.trans found')
    obtain ⟨pr, stored⟩ := players x hx
    have stored := Keyspace.record?_of_entry? stored
    refine ⟨pr.record, stored, ?_⟩
    rw [record?_matchingAll own (mem_playersOf.2 ⟨e, he, hx⟩),
      Keyspace.record?_congr (same _ (player x)), stored]
    rfl
  · have left : (matchingAll requests mid)[Key.queue queue]? = mid[Key.queue queue]? :=
      getElem?_matchingAll_other own fun x _ => Ne.symm (player x)
    exact Keyspace.members_eq ((Keyspace.sortedSetAt?_congr left).trans dropped)
  · refine (getElem?_matchingAll_other own fun x hx => ?_).trans (same key queue)
    obtain ⟨e, he, hx⟩ := mem_playersOf.1 hx
    exact others e he x hx

/-- A pop with nobody else at work. -/
theorem Manned.pop_solo {settings : Settings} (positive : 0 < count)
    (bounded : count ≤ settings.maxDequeue) :
    Procedure.Solo settings (PopEnds ks queue count set.members) (pop queue count) ks := by
  have staged : ∀ op ∈ [Operation.dequeue queue count], op.Stageable settings :=
    List.forall_mem_singleton.2 ⟨positive, bounded⟩
  have length := h.agrees.length_members
  rw [pop_eq (Nat.pos_iff_ne_zero.1 positive)]
  refine .bind (.mapError (.begin fun id => .bind (.mapError (.commit staged
    (fun fails rejection blamed => ?_) (fun _ key type misfit => ?_) fun holds fit => ?_))))
  · have short : ¬ (Requirement.longEnough queue count).Holds ks :=
      fun long => fails (List.forall_mem_singleton.2 long)
    have blamed : Blamed ks ([] ++ .longEnough queue count :: []) rejection := blamed
    obtain ⟨label, rfl, name⟩ := blamed.tooShort short
    obtain rfl : label = (Key.queue queue).text := name (List.forall_mem_nil _)
    refine .tooFew (Nat.lt_of_not_le fun enough => short ⟨set, h.shown, ?_⟩)
    rwa [← length]
  · have fits : Keyspace.firstMismatch ks.types ([] ++ .popFirst (.queue queue) count :: []) = none :=
      Keyspace.firstMismatch_popFirst (Keyspace.types_shown h.shown) (List.forall_mem_nil _) []
    have none := fits.symm.trans misfit
    contradiction
  · obtain ⟨set', shown', enough⟩ := holds _ List.mem_cons_self
    obtain ⟨set'', shown'', front⟩ : ∃ set'', ks.sortedSetAt? (.queue queue) = some set'' ∧
        Commit.dequeued ⟨id, ks.answers (Operation.allCommands [.dequeue queue count])⟩
          (Transaction.empty id settings).nextTicket = set''.first count :=
      @Operation.dequeued_eq ks id settings [] [] queue count staged fit
    obtain rfl := Option.some.inj (h.shown.symm.trans shown')
    obtain rfl := Option.some.inj (h.shown.symm.trans shown'')
    have same {key : Key} (other : key ≠ .queue queue) :
        (Operation.allEffects ks [.dequeue queue count])[key]? = ks[key]? :=
      Keyspace.getElem?_editSet_of_ne (Ne.symm other)
    have dropped : (Operation.allEffects ks [.dequeue queue count]).sortedSetAt? (.queue queue) =
        some (set.dropFirst count) :=
      Keyspace.sortedSetAt?_editSet h.shown (h.agrees.dropFirst count)
    have own : (Operation.allEffects ks [.dequeue queue count]).OwnIds PlayerRequest :=
      h.filed.players.congr fun x => same (Key.compose_ne (by decide) x queue)
    dsimp only [Except.mapError]
    rw [front]
    -- From here on only these facts about the dequeue matter.
    generalize Operation.allEffects ks [.dequeue queue count] = mid at *
    refine .handle ((takeOver_solo settings own fun m hm => ?_).mono ?_)
    · obtain ⟨e, found, -, readable⟩ := h.parties (fun _ => same) m hm
      exact ⟨e, found, readable⟩
    · rintro _ _ ⟨rfl, rfl⟩
      exact ⟨h.handedOut (length ▸ enough) (fun _ => same) own dropped, _, rfl⟩

end

/-! ## In reachable worlds -/

/-- In every reachable world everybody who stands in a queue can be taken off it. -/
theorem Manned.of_custody {L : Ledger} (custody : Custody L) (agreed : Membership L.keyspace)
    {queue : String} {set : SortedSet} (shown : L.keyspace.sortedSetAt? (.queue queue) = some set)
    (agrees : set.Agrees) : Manned L.keyspace queue set where
  shown := shown
  agrees := agrees
  filed := .of_custody custody agreed
  request m hm := by
    have waits : L.keyspace.Waits queue m.member m.score :=
      ⟨set, shown, agrees.mem_members.1 hm⟩
    obtain ⟨r, stored, id, -, score⟩ := custody.request_of_waits waits
    obtain ⟨e, found, rfl⟩ := Option.map_eq_some_iff.1 stored
    refine ⟨e, found, ?_, fun x hx => ?_⟩
    · rw [Entry.place, show e.id = m.member from id, show Queued.score e.record = m.score from score]
    · obtain ⟨e', found', -⟩ := custody.entry?_player stored hx
      exact ⟨e', found'⟩

/-- In every reachable world the parties of a queue stand in line, and a pop of a number of
them with nobody else at work hands out the front of the line.  Where the line is shorter
than that, it fails and changes nothing. -/
theorem pop_first_come {w : World} (reach : World.Reachable .custody w)
    (ticking : w.ledger.Ticking) (queue : String) {count : Nat} (positive : 0 < count)
    (c : Connection) (calm : c.database.faults = [])
    (store : c.database.keyspace = w.ledger.keyspace)
    (bounded : count ≤ c.settings.maxDequeue) :
    let run := (pop queue count).run Connection.serve c
    ∃ waiting, World.Line w queue waiting ∧
      PopEnds w.ledger.keyspace queue count waiting run.1 run.2.database.keyspace := by
  have custody := Custody.of_reachable reach
  have agreed := Membership.of_reachable reach.free
  obtain ⟨set, shown, agrees⟩ := custody.queues queue
  have manned := Manned.of_custody custody agreed shown agrees
  exact ⟨set.members, reach.line ticking shown agrees,
    manned.pop_solo positive bounded c calm rfl store⟩

/-- Ann joined before Bob. -/
theorem ticking_pairedWorld : pairedWorld.ledger.Ticking := by
  have times {i : Nat} {now : Score}
      (reads : (pairedWorld.ledger.activity? i).bind Activity.time? = some now) :
      i = 3 ∧ now = .ofNat 1 ∨ i = 1 ∧ now = .ofNat 0 := by
    simp only [pairedWorld, queuedWorld, createdWorld, World.activity?_call] at reads
    split at reads
    next bob => exact .inl ⟨bob, (Option.some.inj reads).symm⟩
    split at reads
    next => contradiction
    split at reads
    next ann => exact .inr ⟨ann, (Option.some.inj reads).symm⟩
    split at reads <;> contradiction
  have other : Score.ofNat 1 ≠ .ofNat 0 := by decide +kernel
  intro i j now first second
  rcases times first with ⟨rfl, rfl⟩ | ⟨rfl, rfl⟩ <;>
    rcases times second with ⟨rfl, same⟩ | ⟨rfl, same⟩
  · rfl
  · exact absurd same other
  · exact absurd same.symm other
  · rfl

theorem members_pairedWorld : pairedWorld.ledger.keyspace.members (.queue "duel") =
    .ok [⟨"p", .ofNat 0⟩, ⟨"q", .ofNat 1⟩] := by decide +kernel

/-- Ann's party is handed out, and Bob's waits. -/
theorem ann_is_popped_first :
    let run := (pop "duel" 1).run Connection.serve
      ⟨⟨pairedWorld.ledger.keyspace, [], 0⟩, .default, 0⟩
    ∃ requests, run.1 = .ok requests ∧ requests.map Entry.place = [⟨"p", .ofNat 0⟩] ∧
      run.2.database.keyspace.members (.queue "duel") = .ok [⟨"q", .ofNat 1⟩] := by
  -- The store is a variable here, so that nothing computes it.
  have popped (ks : Keyspace) (store : ks = pairedWorld.ledger.keyspace) :
      let run := (pop "duel" 1).run Connection.serve ⟨⟨ks, [], 0⟩, .default, 0⟩
      ∃ requests, run.1 = .ok requests ∧ requests.map Entry.place = [⟨"p", .ofNat 0⟩] ∧
        run.2.database.keyspace.members (.queue "duel") = .ok [⟨"q", .ofNat 1⟩] := by
    obtain ⟨waiting, stands, ends⟩ := pop_first_come reachable_pairedWorld ticking_pairedWorld
      "duel" Nat.one_pos ⟨⟨ks, [], 0⟩, .default, 0⟩ rfl store
      (by decide : 1 ≤ Settings.default.maxDequeue)
    obtain rfl := Except.ok.inj (stands.listed.symm.trans members_pairedWorld)
    exact ends.handed (Nat.le_add_left 1 1)
  exact popped _ rfl

end Gateway

end Matchmaking
