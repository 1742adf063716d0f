import Mathlib.Logic.Function.Basic
import Matchmaking.Gateway
import Matchmaking.Proofs.Records
import Matchmaking.Service

/-!
# Clients side by side

Any number of clients make calls against one store.  A step of the world starts a
call or answers one request of a call that is under way, so requests of different
calls interleave in any order.  No batch meets a fault.  A call returns with the
answer to its last request.

A `Ledger` is what the calls have done so far: the store, how far each call is,
and who holds which party.

* A call that pops a queue has *taken* the parties until it returns.  With them
  it hands them out: its client then *holds* them.  A party that the call puts
  back into a queue is not taken any more.
* A call that assigns works on one assignment at a time, from the first request
  for it to the commit.  The commit lets go of the party.

A `Discipline` says which calls may be made, and which of them may make their next
request.  It is how callers promise something, such as to assign only parties that
they hold.
-/

namespace Matchmaking

/-! ## Calls -/

/-- A call of a client. -/
inductive Activity where
  /-- Creates a party. -/
  | create (id leader token : String) (min max : UInt32)
  /-- Joins a party. -/
  | joinParty (player token party : String)
  /-- Leaves the party. -/
  | leave (player : String)
  /-- Queues the party. -/
  | join (player matchmakingType : String) (metadata : TextMap) (now : Score)
  /-- Pops parties off a queue. -/
  | pop (queue : String) (count : Nat)
  /-- Carries out decisions. -/
  | assign (assignments : List Gateway.Assignment)
  /-- Asks how far a match has come. -/
  | status (player : String)

namespace Activity

/-- The procedure of a call.  Its result are the requests that it hands out. -/
def call : Activity → Call (List (Entry PartyRequest))
  | create id leader token min max => do
    let _ ← Parties.create id leader token min max
    pure []
  | joinParty player token party => do
    let _ ← Parties.join player token party
    pure []
  | leave player => do
    Parties.leave player
    pure []
  | join player matchmakingType metadata now => do
    let _ ← Gateway.join player matchmakingType metadata now
    pure []
  | pop queue count => Gateway.pop queue count
  | assign assignments => do
    Gateway.assign assignments
    pure []
  | status player => do
    let _ ← Gateway.status player
    pure []

/-- The clock that a call reads shows whole milliseconds, and fewer than 900 million
million of them. -/
def Proper : Activity → Prop
  | join _ _ _ now => ∃ millis : Nat, 10 * millis < 2 ^ 53 ∧ now = .ofNat millis
  | _ => True

end Activity

/-- How far a call is. -/
structure Progress where
  /-- The client that makes the call. -/
  client : Nat
  /-- The call. -/
  activity : Activity
  /-- The number of batches it has committed. -/
  commits : Nat
  /-- Whether it has begun with the next assignment. -/
  busy : Bool
  /-- The parties that it took off queues and has neither put back nor handed out. -/
  taken : List String

namespace Progress

/-- The assignment that comes next. -/
def next? (p : Progress) : Option Gateway.Assignment :=
  match p.activity with
  | .assign assignments => assignments[p.commits]?
  | _ => none

/-- The assignment that the call works on. -/
def current? (p : Progress) : Option Gateway.Assignment := if p.busy then p.next? else none

/-- The call makes a request, and so begins with the next assignment. -/
def ask (p : Progress) : Progress := if p.next?.isSome then { p with busy := true } else p

@[simp] theorem activity_ask (p : Progress) : p.ask.activity = p.activity := by
  unfold ask
  split <;> rfl

@[simp] theorem client_ask (p : Progress) : p.ask.client = p.client := by
  unfold ask
  split <;> rfl

/-- The members that a reply hands over. -/
def received : Reply → List String
  | .popped members => members.map (·.member)
  | .done => []

/-- The member that a command puts into a queue. -/
def added? : Command → Option String
  | .addMember _ member => some member.member
  | _ => none

/-- The call commits a batch. -/
def commit (p : Progress) (commands : List Command) (replies : List Reply) : Progress :=
  { p with
    commits := p.commits + 1
    busy := false
    taken := (p.taken ++ replies.flatMap received).filter (· ∉ commands.filterMap added?) }

/-- The call returns. -/
def finish (p : Progress) : Progress := { p with busy := false, taken := [] }

end Progress

/-! ## Ledgers -/

/-- What calls have done. -/
structure Ledger where
  /-- The store. -/
  keyspace : Keyspace
  /-- The calls that were started. -/
  calls : Nat → Option Progress
  /-- The clients with the parties that they hold. -/
  held : List (Nat × String)

namespace Ledger

/-- Nothing has been done. -/
def initial : Ledger := ⟨∅, fun _ => none, []⟩

/-- One call gets further. -/
def update (L : Ledger) (i : Nat) (f : Progress → Progress) : Ledger :=
  { L with calls := Function.update L.calls i ((L.calls i).map f) }

@[simp] theorem calls_update_self (L : Ledger) (i : Nat) (f : Progress → Progress) :
    (L.update i f).calls i = (L.calls i).map f := Function.update_self i _ L.calls

theorem calls_update_of_ne (L : Ledger) {i j : Nat} (f : Progress → Progress) (h : j ≠ i) :
    (L.update i f).calls j = L.calls j := Function.update_of_ne h _ _

/-- What stays the same when a call gets further. -/
theorem map_update {γ : Type} {L : Ledger} {i j : Nat} {f : Progress → γ} {g : Progress → Progress}
    (kept : ∀ p, f (g p) = f p) : ((L.update i g).calls j).map f = (L.calls j).map f := by
  by_cases same : j = i
  · subst same
    rw [calls_update_self, Option.map_map]
    exact congrArg (Option.map · (L.calls j)) (funext kept)
  · rw [calls_update_of_ne L g same]

/-- A call starts. -/
def start (L : Ledger) (i client : Nat) (activity : Activity) : Ledger :=
  { L with calls := Function.update L.calls i (some ⟨client, activity, 0, false, []⟩) }

/-- A call makes a request. -/
def ask (L : Ledger) (i : Nat) : Ledger := L.update i .ask

/-- The party that the next commit of a call lets go of, with the client. -/
def released? (L : Ledger) (i : Nat) : Option (Nat × String) :=
  (L.calls i).bind fun p => p.next?.map fun a => (p.client, a.party)

/-- A call commits a batch. -/
def commit (L : Ledger) (i : Nat) (commands : List Command) (replies : List Reply)
    (ks : Keyspace) : Ledger :=
  { L.update i (·.commit commands replies) with
    keyspace := ks
    held := L.held.filter (some · ≠ L.released? i) }

/-- A request of a call is answered. -/
def answered (L : Ledger) (i : Nat) : (r : Request) → r.Answer → Keyspace → Ledger
  | .execute batch, .ok (.committed replies), ks => (L.ask i).commit i batch.commands replies ks
  | _, _, _ => L.ask i

theorem calls_answered_of_ne (L : Ledger) {i j : Nat} (r : Request) (answer : r.Answer)
    (ks : Keyspace) (h : j ≠ i) : (L.answered i r answer ks).calls j = L.calls j := by
  unfold answered
  split
  · exact ((L.ask i).calls_update_of_ne _ h).trans (L.calls_update_of_ne _ h)
  · exact L.calls_update_of_ne _ h

/-- What stays the same when a request is answered. -/
theorem map_answered {γ : Type} {L : Ledger} {i j : Nat} {f : Progress → γ}
    (asked : ∀ p : Progress, f p.ask = f p)
    (committed : ∀ (p : Progress) commands replies, f (p.commit commands replies) = f p)
    (r : Request) (answer : r.Answer) (ks : Keyspace) :
    ((L.answered i r answer ks).calls j).map f = (L.calls j).map f := by
  unfold answered
  split
  next batch replies => exact (map_update fun p => committed p _ _).trans (map_update asked)
  next => exact map_update asked

/-- The call of a number. -/
def activity? (L : Ledger) (i : Nat) : Option Activity := (L.calls i).map Progress.activity

theorem activity?_update {L : Ledger} {i j : Nat} {f : Progress → Progress}
    (kept : ∀ p, (f p).activity = p.activity) :
    (L.update i f).activity? j = L.activity? j := map_update kept

theorem activity?_answered {L : Ledger} {i j : Nat} (r : Request) (answer : r.Answer)
    (ks : Keyspace) : (L.answered i r answer ks).activity? j = L.activity? j :=
  map_answered Progress.activity_ask (fun _ _ _ => rfl) r answer ks

/-- The parties that a client holds who is handed requests. -/
def handed (client : Nat) : Except GatewayError (List (Entry PartyRequest)) → List (Nat × String)
  | .ok requests => requests.map fun e => (client, e.id)
  | .error _ => []

/-- A call returns. -/
def finish (L : Ledger) (i : Nat) (result : Except GatewayError (List (Entry PartyRequest))) :
    Ledger :=
  { L.update i .finish with
    held := ((L.calls i).elim [] fun p => handed p.client result) ++ L.held }

end Ledger

/-! ## Worlds -/

/-- The answers of a store that meets no fault, with the store afterwards. -/
inductive Answered (ks : Keyspace) (r : Request) : r.Answer → Keyspace → Prop where
  /-- A client of the store asks over a connection. -/
  | serve (c : Connection) (store : c.database.keyspace = ks) (calm : c.database.faults = []) :
      Answered ks r (Connection.serve r c).1 (Connection.serve r c).2.database.keyspace

/-- Answers keep a store calm. -/
theorem Connection.calm_serve {c : Connection} (calm : c.database.faults = []) (r : Request) :
    (Connection.serve r c).2.database.faults = [] := by
  cases r with
  | execute batch => exact (congrArg List.tail calm).trans List.tail_nil
  | _ => exact calm

/-- What the answers of a store keep holds where they lead in the end. -/
theorem Procedure.run_induction {ε α : Type} {P : Procedure ε α → Keyspace → Prop}
    (keeps : ∀ {r : Request} {next : r.Answer → Procedure ε α} {ks : Keyspace} {answer : r.Answer}
      {ks' : Keyspace}, P (.ask r next) ks → Answered ks r answer ks' → P (next answer) ks')
    {p : Procedure ε α} {c : Connection} (calm : c.database.faults = [])
    (so : P p c.database.keyspace) :
    P (.done (p.run Connection.serve c).1) (p.run Connection.serve c).2.database.keyspace := by
  induction p generalizing c with
  | done result => exact so
  | ask r next ih => exact ih _ (Connection.calm_serve calm r) (keeps so (.serve c rfl calm))

/-- The store is after an answer as the ledger says. -/
theorem Ledger.keyspace_answered {L : Ledger} {r : Request} {answer : r.Answer} {ks : Keyspace}
    (h : Answered L.keyspace r answer ks) (i : Nat) : (L.answered i r answer ks).keyspace = ks := by
  cases h with
  | serve c store calm =>
    cases r with
    | execute batch =>
      simp only [Connection.serve, Database.execute, calm, Database.meet, Keyspace.execute,
        List.head?_nil, Option.join_none, store]
      split
      · split <;> rfl
      · rfl
    | _ => exact store.symm

/-- What callers promise. -/
structure Discipline where
  /-- The calls that they make. -/
  Starts : Activity → Prop
  /-- Which calls may make their next request. -/
  Asks : Ledger → Nat → Prop

/-- A store and the calls that are made. -/
structure World where
  /-- What has been done. -/
  ledger : Ledger
  /-- What is left of each call. -/
  rest : Nat → Call (List (Entry PartyRequest))

namespace World

/-- The empty store before any call. -/
def initial : World := ⟨.initial, fun _ => .done (.ok [])⟩

/-- A call starts. -/
def start (w : World) (i client : Nat) (activity : Activity) : World :=
  ⟨w.ledger.start i client activity, Function.update w.rest i activity.call⟩

theorem activity?_start (w : World) (i j client : Nat) (activity : Activity) :
    (w.start i client activity).ledger.activity? j =
      if j = i then some activity else w.ledger.activity? j := by
  refine (congrArg (Option.map Progress.activity) (Function.update_apply _ i _ j)).trans ?_
  split <;> rfl

/-- A call goes on with an answer, and returns if that was the last one. -/
def advance (w : World) (i : Nat) (r : Request) (answer : r.Answer) (ks : Keyspace)
    (rest : Call (List (Entry PartyRequest))) : World :=
  let ledger := w.ledger.answered i r answer ks
  ⟨match rest with
    | .done result => ledger.finish i result
    | .ask _ _ => ledger,
    Function.update w.rest i rest⟩

theorem keyspace_advance (w : World) {i : Nat} {r : Request} {answer : r.Answer} {ks : Keyspace}
    (rest : Call (List (Entry PartyRequest))) (h : Answered w.ledger.keyspace r answer ks) :
    (w.advance i r answer ks rest).ledger.keyspace = ks := by
  have answered := Ledger.keyspace_answered h i
  cases rest <;> exact answered

theorem activity?_advance (w : World) {i j : Nat} (r : Request) (answer : r.Answer) (ks : Keyspace)
    (rest : Call (List (Entry PartyRequest))) :
    (w.advance i r answer ks rest).ledger.activity? j = w.ledger.activity? j := by
  have answered : (w.ledger.answered i r answer ks).activity? j = w.ledger.activity? j :=
    Ledger.activity?_answered r answer ks
  cases rest with
  | done result => exact (Ledger.activity?_update (f := .finish) fun _ => rfl).trans answered
  | ask _ _ => exact answered

theorem calls_advance_of_ne (w : World) {i j : Nat} {r : Request} {answer : r.Answer}
    {ks : Keyspace} {rest : Call (List (Entry PartyRequest))} (h : j ≠ i) :
    (w.advance i r answer ks rest).ledger.calls j = w.ledger.calls j := by
  have answered := w.ledger.calls_answered_of_ne r answer ks h
  cases rest with
  | done result => exact (Ledger.calls_update_of_ne _ _ h).trans answered
  | ask _ _ => exact answered

/-- The steps of a world. -/
inductive Step (D : Discipline) (w : World) : World → Prop where
  /-- A client makes a call. -/
  | start (i client : Nat) (activity : Activity) (new : w.ledger.calls i = none)
      (starts : D.Starts activity) : Step D w (w.start i client activity)
  /-- A request is answered. -/
  | advance (i : Nat) (r : Request) (next : r.Answer → Call (List (Entry PartyRequest)))
      (waits : w.rest i = .ask r next) (asks : D.Asks w.ledger i) (answer : r.Answer)
      (ks : Keyspace) (answered : Answered w.ledger.keyspace r answer ks) :
      Step D w (w.advance i r answer ks (next answer))

/-- The worlds that steps lead to from the empty store. -/
inductive Reachable (D : Discipline) : World → Prop where
  | initial : Reachable D initial
  | step {w w' : World} (reach : Reachable D w) (step : Step D w w') : Reachable D w'

end World

/-! ## Disciplines -/

namespace Discipline

/-- Callers promise nothing. -/
def free : Discipline := ⟨fun _ => True, fun _ _ => True⟩

/-- A call begins with an assignment only if its client holds the party and no call
works on an assignment of the party. -/
def custody : Discipline where
  Starts := Activity.Proper
  Asks L i := ∀ p a, L.calls i = some p → p.busy = false → p.next? = some a →
    (p.client, a.party) ∈ L.held ∧
      ∀ j q b, L.calls j = some q → q.current? = some b → b.party ≠ a.party

end Discipline

/-- Promises of callers only take worlds away. -/
theorem World.Reachable.free {D : Discipline} {w : World} (h : Reachable D w) :
    Reachable .free w := by
  induction h with
  | initial => exact .initial
  | step _ step ih =>
    refine .step ih ?_
    cases step with
    | start i client activity new starts => exact .start i client activity new trivial
    | advance i r next waits asks answer ks answered =>
      exact .advance i r next waits trivial answer ks answered

/-! ## Schedules -/

/-- Clients of one store, by what each of them waits for. -/
structure Crowd (σ : Type) where
  /-- The store. -/
  keyspace : σ → Keyspace
  /-- The request of a client, and what its answer and the store behind it lead to. -/
  waiting : σ → Nat → Option ((r : Request) × (r.Answer → Keyspace → σ))

namespace Crowd

variable {σ : Type} (C : Crowd σ)

/-- The next request of a client is answered, if the client makes one. -/
def turn (s : σ) (i : Nat) : σ :=
  match C.waiting s i with
  | none => s
  | some ⟨r, next⟩ =>
    let (answer, c) := Connection.serve r ⟨⟨C.keyspace s, [], 0⟩, .default, 0⟩
    next answer c.database.keyspace

/-- Clients take turns. -/
def turns (s : σ) (schedule : List Nat) : σ := schedule.foldl C.turn s

theorem turn_cases (s : σ) (i : Nat) : C.turn s i = s ∨ ∃ r next answer ks,
    C.waiting s i = some ⟨r, next⟩ ∧ Answered (C.keyspace s) r answer ks ∧
      C.turn s i = next answer ks := by
  unfold turn
  cases waits : C.waiting s i with
  | none => exact .inl rfl
  | some request =>
    obtain ⟨r, next⟩ := request
    exact .inr ⟨r, next, _, _, rfl, .serve ⟨⟨C.keyspace s, [], 0⟩, .default, 0⟩ rfl rfl, rfl⟩

/-- What the answers to all clients keep, every schedule keeps. -/
theorem turns_induction {P : σ → Prop} (keeps : ∀ {s i r next answer ks}, P s →
      C.waiting s i = some ⟨r, next⟩ → Answered (C.keyspace s) r answer ks → P (next answer ks))
    {s : σ} (so : P s) (schedule : List Nat) : P (C.turns s schedule) := by
  refine List.foldlRecOn schedule C.turn so fun s so i _ => ?_
  rcases C.turn_cases s i with same | ⟨r, next, answer, ks, waits, answered, same⟩
  · rw [same]
    exact so
  · rw [same]
    exact keeps so waits answered

end Crowd

namespace World

/-- The calls of a world. -/
def crowd : Crowd World where
  keyspace w := w.ledger.keyspace
  waiting w i :=
    match w.rest i with
    | .done _ => none
    | .ask r next => some ⟨r, fun answer ks => w.advance i r answer ks (next answer)⟩

/-- The next request of a call is answered, if the call makes one. -/
def turn (w : World) (i : Nat) : World := crowd.turn w i

theorem turn_cases (w : World) (i : Nat) : w.turn i = w ∨ ∃ r next answer ks,
    w.rest i = .ask r next ∧ Answered w.ledger.keyspace r answer ks ∧
      w.turn i = w.advance i r answer ks (next answer) := by
  rcases crowd.turn_cases w i with same | ⟨r, next, answer, ks, waits, answered, same⟩
  · exact .inl same
  · dsimp only [crowd] at waits
    split at waits
    · contradiction
    next r next rest =>
      cases waits
      exact .inr ⟨r, next, answer, ks, rest, answered, same⟩

theorem calls_turn_of_ne (w : World) {i j : Nat} (h : j ≠ i) :
    (w.turn i).ledger.calls j = w.ledger.calls j := by
  rcases w.turn_cases i with same | ⟨r, next, answer, ks, -, -, same⟩
  · rw [same]
  · rw [same, w.calls_advance_of_ne h]

theorem Reachable.turn {D : Discipline} {w : World} (reach : Reachable D w) {i : Nat}
    (asks : D.Asks w.ledger i) : Reachable D (w.turn i) := by
  rcases w.turn_cases i with same | ⟨r, next, answer, ks, waits, answered, same⟩
  · rw [same]
    exact reach
  · rw [same]
    exact reach.step (.advance i r next waits asks answer ks answered)

/-- A number of requests of a call are answered. -/
def turns (w : World) (i : Nat) : Nat → World
  | 0 => w
  | n + 1 => (w.turns i n).turn i

theorem calls_turns_of_ne (w : World) {i j : Nat} (h : j ≠ i) (n : Nat) :
    (w.turns i n).ledger.calls j = w.ledger.calls j := by
  induction n with
  | zero => rfl
  | succ n ih => exact ((w.turns i n).calls_turn_of_ne h).trans ih

theorem Reachable.turns {D : Discipline} {w : World} (reach : Reachable D w) {i : Nat}
    (asks : ∀ n, D.Asks (w.turns i n).ledger i) (n : Nat) : Reachable D (w.turns i n) := by
  induction n with
  | zero => exact reach
  | succ n ih => exact ih.turn (asks n)

end World

end Matchmaking
