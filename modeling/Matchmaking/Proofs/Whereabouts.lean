import Matchmaking.Proofs.Assigning
import Matchmaking.Proofs.WholeScores

/-!
# Where parties are in every reachable world

Every call keeps custody from where it starts, so custody holds in every world that
clients reach who assign only what they hold.
-/

namespace Matchmaking

namespace Custody

variable {L : Ledger} {i : Nat}

/-- Every call keeps custody. -/
theorem activity_safe (h : Custody L) (new : L.calls i = none) (client : Nat) {activity : Activity}
    (proper : activity.Proper) :
    Safe account i (account.close i) activity.call (L.start i client activity) := by
  have custody := (h.start new client activity).inv
  cases activity with
  | create id leader token min max =>
    exact closing (create_safe (idle_start (by simp)) custody id leader token min max)
  | joinParty player token party =>
    exact closing (join_safe (idle_start (by simp)) player token party)
  | leave player => exact closing (leave_safe (idle_start (by simp)) player)
  | join player matchmakingType metadata now =>
    obtain ⟨millis, early, rfl⟩ := proper
    exact closing (queue_safe (idle_start (by simp)) player matchmakingType metadata
      (Score.readsBack_ofNat early))
  | pop queue count => exact pop_safe (idle_start (by simp)) custody queue count
  | assign assignments =>
    have record := Function.update_self i (some ⟨client, .assign assignments, 0, false, []⟩) L.calls
    exact closing (assign_safe ⟨custody, _, assignments, record, rfl, rfl, rfl⟩)
  | status player => exact closing (status_safe (idle_start (by simp)) player)

/-- Custody holds in every reachable world. -/
theorem of_reachable {w : World} (reach : World.Reachable .custody w) : Custody w.ledger :=
  (account.holds initial
    (fun _ _ client _ custody new proper =>
      ⟨custody.start new client _, activity_safe custody new client proper⟩)
    (fun _ reach => Membership.of_reachable reach.free) reach).inv

end Custody

/-! ## Places of parties -/

/-- A call that does not assign is such a call after its next request. -/
theorem Safe.Plain.turn {w : World} {i : Nat} (plain : Safe.Plain i w.ledger) :
    Safe.Plain i (w.turn i).ledger := by
  rcases w.turn_cases i with same | ⟨r, next, answer, ks, -, -, same⟩
  · rw [same]
    exact plain
  · rw [same]
    cases next answer with
    | done result => exact plain.answered.update fun _ => rfl
    | ask r next => exact plain.answered

theorem Safe.Plain.turns {w : World} {i : Nat} (plain : Safe.Plain i w.ledger) (n : Nat) :
    Safe.Plain i (w.turns i n).ledger := by
  induction n with
  | zero => exact plain
  | succ n ih => exact ih.turn

/-- A call that has taken parties has not returned. -/
theorem World.Reachable.under_way {D : Discipline} {w : World} (reach : Reachable D w) {i : Nat}
    {p : String} (takes : w.ledger.Takes i p) : ∃ r next, w.rest i = .ask r next := by
  induction reach with
  | initial =>
    obtain ⟨c, record, -⟩ := takes
    contradiction
  | @step w w' _ step ih =>
    cases step with
    | start j client activity new starts =>
      by_cases same : i = j
      · subst same
        exact absurd takes (w.ledger.not_takes_start p)
      · have before : (w.start j client activity).ledger.calls i = w.ledger.calls i :=
          Function.update_of_ne same _ _
        have rest : (w.start j client activity).rest i = w.rest i := Function.update_of_ne same _ _
        rw [rest]
        obtain ⟨c, record, mem⟩ := takes
        exact ih ⟨c, before.symm.trans record, mem⟩
    | advance j r next waits asks answer ks answered =>
      by_cases same : i = j
      · subst same
        have rest : (w.advance i r answer ks (next answer)).rest i = next answer :=
          Function.update_self i _ _
        rw [rest]
        cases form : next answer with
        | ask r' next' => exact ⟨r', next', rfl⟩
        | done result =>
          rw [form] at takes
          exact absurd rfl ((Ledger.takes_finish _ i p).1 takes).1
      · have rest : (w.advance j r answer ks (next answer)).rest i = w.rest i :=
          Function.update_of_ne same _ _
        rw [rest]
        obtain ⟨c, record, mem⟩ := takes
        exact ih ⟨c, (w.calls_advance_of_ne same).symm.trans record, mem⟩

/-- In every reachable world a stored request of a party can be read, and the party is
in one place.  It stands in the queue of its type at its score, and in no other queue,
or a call that has not returned took it off, or a client holds it.  Everything that
stands in a queue is a party with a stored request for that queue. -/
theorem queued_in_one_place {w : World} (reach : World.Reachable .custody w) :
    (∀ p, Key.entry PartyRequest p ∈ w.ledger.keyspace →
      ∃ r, w.ledger.keyspace.record? PartyRequest p = some r ∧ (∃! place, w.ledger.At p place) ∧
        ∀ queue score, w.ledger.keyspace.Waits queue p score ↔
          w.ledger.At p .waiting ∧ queue = r.matchmakingType ∧ score = r.score) ∧
    (∀ queue p score, w.ledger.keyspace.Waits queue p score →
      ∃ r, w.ledger.keyspace.record? PartyRequest p = some r ∧ r.matchmakingType = queue) ∧
    ∀ i p, w.ledger.At p (.taken i) → ∃ r next, w.rest i = .ask r next := by
  have custody := Custody.of_reachable reach
  refine ⟨fun p there => ?_, fun queue p score waits => ?_, fun i p => reach.under_way⟩
  · obtain ⟨r, stored⟩ := custody.legible.mem_iff.1 there
    have kept := (custody.orderly p).kept stored
    refine ⟨r, stored, ?_, fun queue score => ⟨fun waits => ?_, ?_⟩⟩
    · obtain ⟨place, there⟩ := kept.place
      exact ⟨place, there, fun place' there' => (custody.orderly p).one _ _ there' there⟩
    · exact ⟨⟨queue, score, waits⟩, kept.waits waits⟩
    · rintro ⟨⟨queue, score, waits⟩, rfl, rfl⟩
      obtain ⟨rfl, rfl⟩ := kept.waits waits
      exact waits
  · obtain ⟨r, stored⟩ := custody.stored .waiting ⟨queue, score, waits⟩
    exact ⟨r, stored, (((custody.orderly p).kept stored).waits waits).1.symm⟩

/-- A call that assigns nothing may always go on. -/
theorem World.Reachable.call {w : World} (reach : Reachable .custody w) (i client : Nat)
    (activity : Activity) (new : w.ledger.calls i = none) (proper : activity.Proper)
    (other : ∀ assignments, activity ≠ .assign assignments) (n : Nat) :
    Reachable .custody ((w.start i client activity).turns i n) := by
  have started := reach.step (.start i client activity new proper)
  have plain : Safe.Plain i (w.start i client activity).ledger := Safe.plain_start other
  refine started.turns (fun k c a record _ next => ?_) n
  rw [(plain.turns k).next?_eq record] at next
  contradiction

theorem World.calls_call (w : World) {i j client : Nat} {activity : Activity} (n : Nat) (h : j ≠ i) :
    ((w.start i client activity).turns i n).ledger.calls j = w.ledger.calls j :=
  (calls_turns_of_ne _ h n).trans (Function.update_of_ne h _ _)

/-- Ann has queued her party. -/
def queuedWorld : World := (createdWorld.start 1 0 (.join "ann" "duel" ∅ (.ofNat 0))).turns 1 4

theorem calls_createdWorld {i : Nat} (later : 0 < i) : createdWorld.ledger.calls i = none := by
  rw [createdWorld, World.calls_call _ 2 (by omega)]
  rfl

theorem calls_queuedWorld {i : Nat} (later : 1 < i) : queuedWorld.ledger.calls i = none := by
  rw [queuedWorld, World.calls_call _ 4 (by omega), calls_createdWorld (by omega)]

theorem reachable_queuedWorld : World.Reachable .custody queuedWorld := by
  have created : World.Reachable .custody createdWorld :=
    World.Reachable.initial.call 0 0 (.create "p" "ann" "token" 1 2) rfl trivial (by simp) 2
  exact created.call 1 0 (.join "ann" "duel" ∅ (.ofNat 0)) (calls_createdWorld (by decide))
    ⟨0, by decide, rfl⟩ (by simp) 4

/-- What the store shows of her party, and of one that nobody has made. -/
theorem shown_queuedWorld :
    (queuedWorld.ledger.keyspace.record? PartyRequest "p").map (·.party.players) = some ["ann"] ∧
      (queuedWorld.ledger.keyspace.sortedSetAt? (.queue "duel")).bind (·.score? "p") =
        some (.ofNat 0) ∧
      queuedWorld.ledger.keyspace.contains (.entry PartyRequest "q") = false := by
  decide +kernel

/-- Bob has queued a party of his own behind hers. -/
def pairedWorld : World :=
  (((queuedWorld.start 2 1 (.create "q" "bob" "token" 1 2)).turns 2 2).start 3 1
    (.join "bob" "duel" ∅ (.ofNat 1))).turns 3 4

theorem calls_pairedWorld {i : Nat} (later : 3 < i) : pairedWorld.ledger.calls i = none := by
  rw [pairedWorld, World.calls_call _ 4 (by omega), World.calls_call _ 2 (by omega),
    calls_queuedWorld (by omega)]

theorem reachable_pairedWorld : World.Reachable .custody pairedWorld := by
  have created : World.Reachable .custody
      ((queuedWorld.start 2 1 (.create "q" "bob" "token" 1 2)).turns 2 2) :=
    reachable_queuedWorld.call 2 1 (.create "q" "bob" "token" 1 2) (calls_queuedWorld (by decide))
      trivial (by simp) 2
  refine created.call 3 1 (.join "bob" "duel" ∅ (.ofNat 1)) ?_ ⟨1, by decide, rfl⟩ (by simp) 4
  rw [World.calls_call _ 2 (by decide), calls_queuedWorld (by decide)]

/-- A call has taken Ann's party off the queue. -/
def takenWorld : World := (queuedWorld.start 2 1 (.pop "duel" 1)).turns 2 2

theorem taken_party_in_one_place :
    World.Reachable .custody takenWorld ∧ takenWorld.ledger.Takes 2 "p" ∧
      ∃! place, takenWorld.ledger.At "p" place := by
  have reach : World.Reachable .custody takenWorld :=
    reachable_queuedWorld.call 2 1 (.pop "duel" 1) (calls_queuedWorld (by decide)) trivial
      (by simp) 2
  have taken : (takenWorld.ledger.calls 2).map Progress.taken = some ["p"] := by decide +kernel
  obtain ⟨c, record, same⟩ := Option.map_eq_some_iff.1 taken
  have takes : takenWorld.ledger.Takes 2 "p" := ⟨c, record, same ▸ List.mem_singleton_self _⟩
  have custody := Custody.of_reachable reach
  have stored := custody.legible.mem_iff.2 (custody.stored (.taken 2) takes)
  obtain ⟨_, -, one, -⟩ := (queued_in_one_place reach).1 "p" stored
  exact ⟨reach, takes, one⟩

/-- In every reachable world a party is matchmaking exactly if its request is stored.
The request embeds the party as it is stored, and every member has a request of the
same type and metadata without a deployment, requested while the party waits and
matching while a client holds it.  A player's request that is requested or matching
belongs to one such party. -/
theorem matchmaking_is_whole {w : World} (reach : World.Reachable .custody w) :
    (∀ p, Key.entry Party p ∈ w.ledger.keyspace →
      ∃ P, w.ledger.keyspace.record? Party p = some P ∧
        (P.phase = .matchmaking ↔ Key.entry PartyRequest p ∈ w.ledger.keyspace)) ∧
    (∀ p, Key.entry PartyRequest p ∈ w.ledger.keyspace →
      ∃ r, w.ledger.keyspace.record? PartyRequest p = some r ∧
        w.ledger.keyspace.record? Party p = some r.party ∧
        ∀ x ∈ r.party.members, ∃ pr, w.ledger.keyspace.record? PlayerRequest x = some pr ∧
          pr.GoesWith r ∧ (w.ledger.At p .waiting → pr.state = .requested) ∧
            ∀ client, w.ledger.At p (.held client) → pr.state = .matching) ∧
    ∀ x pr, w.ledger.keyspace.record? PlayerRequest x = some pr →
      pr.state = .requested ∨ pr.state = .matching →
        ∃! p, ∃ r, w.ledger.keyspace.record? PartyRequest p = some r ∧ x ∈ r.party.members ∧
          pr.GoesWith r := by
  have custody := Custody.of_reachable reach
  have agreed := Membership.of_reachable reach.free
  refine ⟨fun p there => ?_, fun p there => ?_, fun x pr stored live => ?_⟩
  · obtain ⟨P, stored⟩ := agreed.legible.2.mem_iff.1 there
    refine ⟨P, stored, ?_⟩
    rw [custody.legible.mem_iff]
    constructor
    · intro matchmaking
      cases request : w.ledger.keyspace.record? PartyRequest p with
      | none => exact absurd matchmaking ((custody.orderly p).offstage request P stored)
      | some r => exact ⟨r, rfl⟩
    · rintro ⟨r, request⟩
      have kept := (custody.orderly p).kept request
      obtain rfl := Option.some.inj (stored.symm.trans kept.party)
      exact kept.phase
  · obtain ⟨r, stored⟩ := custody.legible.mem_iff.1 there
    have kept := (custody.orderly p).kept stored
    refine ⟨r, stored, kept.party, fun x hx => ?_⟩
    obtain ⟨pr, follows⟩ := kept.player hx
    exact ⟨pr, follows.stored, follows.same, follows.waiting, follows.held⟩
  · have ongoing : pr.state.isTerminal = false := by
      rcases live with live | live <;> rw [live] <;> rfl
    obtain ⟨p, r, request, listed⟩ := custody.active stored ongoing
    obtain ⟨pr', follows⟩ := ((custody.orderly p).kept request).player listed
    obtain rfl := Option.some.inj (stored.symm.trans follows.stored)
    refine ⟨p, ⟨r, request, listed, follows.same⟩, ?_⟩
    rintro q ⟨r', request', listed', -⟩
    exact custody.player_once agreed request' request listed' listed

theorem queued_party_is_whole :
    World.Reachable .custody queuedWorld ∧ queuedWorld.ledger.At "p" .waiting ∧
      ∃ P, queuedWorld.ledger.keyspace.record? Party "p" = some P ∧ P.phase = .matchmaking := by
  obtain ⟨-, score, -⟩ := shown_queuedWorld
  obtain ⟨set, shown, there⟩ := Option.bind_eq_some_iff.1 score
  have waits : queuedWorld.ledger.At "p" .waiting := ⟨"duel", .ofNat 0, set, shown, there⟩
  have custody := Custody.of_reachable reachable_queuedWorld
  have agreed := Membership.of_reachable reachable_queuedWorld.free
  obtain ⟨phase, whole, -⟩ := matchmaking_is_whole reachable_queuedWorld
  have request := custody.legible.mem_iff.2 (custody.stored .waiting waits)
  obtain ⟨r, -, party, -⟩ := whole "p" request
  obtain ⟨P, stored, matchmaking⟩ := phase "p" (agreed.legible.2.mem_iff.2 ⟨r.party, party⟩)
  exact ⟨reachable_queuedWorld, waits, P, stored, matchmaking.2 request⟩

end Matchmaking
