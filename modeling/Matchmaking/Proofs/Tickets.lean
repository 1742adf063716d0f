import Matchmaking.Proofs.Solo
import Matchmaking.Proofs.StagingErrors

/-!
# Tickets

Any number of transactions are under way at a service, in any of its databases.  They are
opened, staged and committed in any order, while other clients ask for what they like
(`Session`).  The ticket of a dequeue is no more than the number of the transaction and the
number of writes staged before.  Still, of a committed transaction, it yields what this very
dequeue popped, and of every other one it yields nothing (`Session.tickets_read_own_pop`).

Two facts about every transaction carry this.  It has what staging some operations leaves
behind, so that, unless it has an error, its writes are those that were staged before a
dequeue, the pop, and more (`Deal.Sound`).  And its number was counted up to, and no other
transaction has it (`Session.Sound`).
-/

namespace Matchmaking

/-- What a database of a service holds. -/
def Service.contents (s : Service) (name : String) : Keyspace :=
  match s.databases[name]? with
  | some db => db.keyspace
  | none => ∅

/-- Running does not lower the count of transactions. -/
theorem Procedure.opened_le_run {ε α : Type} (p : Procedure ε α) (c : Connection) :
    c.opened ≤ (p.run Connection.serve c).2.opened := by
  induction p generalizing c with
  | done result => exact Nat.le_refl _
  | ask r next ih =>
    refine Nat.le_trans ?_ (ih _ _)
    cases r with
    | begin => exact Nat.le_succ _
    | _ => exact Nat.le_refl _

/-! ## Sessions -/

/-- A dequeue that was staged. -/
structure Issue where
  /-- The writes that were staged before it. -/
  ahead : List Command
  /-- The queue. -/
  queue : String
  /-- How many members are popped. -/
  count : Nat
  /-- The ticket that was handed out. -/
  ticket : Ticket

/-- The end of a transaction. -/
structure Settlement where
  /-- What the database held before the commit. -/
  met : Keyspace
  /-- What the commit returned. -/
  result : Except StoreError Commit
  /-- What the database held after the commit. -/
  left : Keyspace

/-- A transaction with what became of it. -/
structure Deal where
  /-- The name of its database. -/
  database : String
  /-- The transaction. -/
  transaction : Transaction
  /-- The dequeues that were staged. -/
  issued : List Issue
  /-- Its end, once it was committed. -/
  settlement : Option Settlement

namespace Deal

/-- The ticket that staging an operation hands out. -/
def issues (d : Deal) : Operation → List Issue
  | .dequeue queue count =>
    [⟨d.transaction.commands, queue, count, (d.transaction.dequeue queue count).1⟩]
  | _ => []

/-- Stages an operation. -/
def stage (d : Deal) (op : Operation) : Deal :=
  { d with transaction := d.transaction.stage op, issued := d.issued ++ d.issues op }

end Deal

/-- A service and the transactions that were opened. -/
structure Session where
  /-- The service. -/
  service : Service
  /-- The transactions. -/
  deals : List Deal

/-- What happens at a service. -/
inductive Event where
  /-- A transaction is opened at a database. -/
  | opens (database : String)
  /-- A transaction stages an operation. -/
  | stages (i : Nat) (op : Operation)
  /-- A transaction is committed. -/
  | commits (i : Nat)
  /-- Some other client makes a request. -/
  | asks (database : String) (r : Request)
  /-- Texts are appended to a list of a database. -/
  | appends (database : String) (key : Key) (texts : List String)
  /-- A database loses every key. -/
  | flushes (database : String)

namespace Session

/-- A service where no transaction was opened yet. -/
def initial (service : Service) : Session := ⟨service, []⟩

/-- Something is done with a transaction that was not committed yet. -/
def withOpen (s : Session) (i : Nat) (f : Deal → Session) : Session :=
  match s.deals[i]? with
  | some d => if d.settlement.isNone then f d else s
  | none => s

/-- A transaction is committed. -/
def settle (s : Session) (i : Nat) (d : Deal) : Session :=
  match s.service.run d.database (Client.commit d.transaction) with
  | .ok (result, service) =>
    let settlement := ⟨s.service.contents d.database, result, service.contents d.database⟩
    ⟨service, s.deals.set i { d with settlement := some settlement }⟩
  | .error _ => s

/-- A transaction is opened. -/
def opens (s : Session) (database : String) : Session :=
  match s.service.run database Client.begin with
  | .ok (.ok tx, service) => ⟨service, s.deals ++ [⟨database, tx, [], none⟩]⟩
  | _ => s

/-- A request is answered. -/
def asks (s : Session) (database : String) (r : Request) : Session :=
  match s.service.run database (Procedure.request r : StoreCall r.Answer) with
  | .ok (_, service) => { s with service := service }
  | .error _ => s

/-- A database is changed. -/
def changes (s : Session) (database : String) (f : Database → Database) : Session :=
  match s.service.database database with
  | .ok db => { s with service := s.service.setDatabase database (f db) }
  | .error _ => s

/-- What an event makes of a session.  An event that cannot happen changes nothing. -/
def after (s : Session) : Event → Session
  | .opens database => s.opens database
  | .stages i op => s.withOpen i fun d => { s with deals := s.deals.set i (d.stage op) }
  | .commits i => s.withOpen i (s.settle i)
  | .asks database r => s.asks database r
  | .appends database key texts => s.changes database fun db => (db.append key texts).2
  | .flushes database => s.changes database Database.flush

end Session

/-! ## What events do to a service -/

namespace Service

variable {s s' s'' : Service} {name : String}

/-- No database meets faults. -/
def Calm (s : Service) : Prop :=
  ∀ (name : String) (db : Database), s.databases[name]? = some db → db.faults = []

theorem calm_emptyDatabases {names : List String} {into databases : Std.ExtTreeMap String Database}
    (calm : ∀ (name : String) (db : Database), into[name]? = some db → db.faults = [])
    (h : emptyDatabases into names = .ok databases) :
    ∀ (name : String) (db : Database), databases[name]? = some db → db.faults = [] := by
  induction names generalizing into with
  | nil => exact Except.ok.inj h ▸ calm
  | cons name names ih =>
    rw [emptyDatabases] at h
    split at h
    · contradiction
    · refine ih (fun name' db stored => ?_) h
      rw [Std.ExtTreeMap.getElem?_insert] at stored
      split at stored
      · exact Option.some.inj stored ▸ rfl
      · exact calm name' db stored

/-- A service meets no faults when it is started. -/
theorem calm_start {names : List String} {settings : Settings}
    (h : start names settings = .ok s) : s.Calm := by
  rw [start] at h
  split at h
  next => contradiction
  next databases empty =>
    split at h
    · obtain rfl := Except.ok.inj h
      refine calm_emptyDatabases (fun name db stored => ?_) empty
      rw [Std.ExtTreeMap.getElem?_empty] at stored
      contradiction
    · contradiction

/-- From one service to a later one: the limits stay, the count of transactions does not
fall, and no faults come up. -/
structure Advances (s s' : Service) : Prop where
  settings : s'.settings = s.settings
  opened : s.opened ≤ s'.opened
  calm : s.Calm → s'.Calm

theorem Calm.setDatabase (calm : s.Calm) {db : Database} (faults : db.faults = []) :
    (s.setDatabase name db).Calm := by
  intro name' db' stored
  rw [Service.setDatabase, Std.ExtTreeMap.getElem?_insert] at stored
  split at stored
  · exact Option.some.inj stored ▸ faults
  · exact calm name' db' stored

theorem database_eq_ok {db : Database} (h : s.database name = .ok db) :
    s.databases[name]? = some db := by
  rw [database] at h
  split at h
  next stored => rw [stored, Except.ok.inj h]
  next => contradiction

/-- Another database that meets no faults makes a later service. -/
theorem Advances.setDatabase {db db' : Database} (stored : s.database name = .ok db)
    (same : db'.faults = db.faults) : s.Advances (s.setDatabase name db') where
  settings := rfl
  opened := Nat.le_refl _
  calm calm := calm.setDatabase (same.trans (calm name db (database_eq_ok stored)))

theorem contents_setDatabase (db : Database) :
    (s.setDatabase name db).contents name = db.keyspace := by
  rw [contents, setDatabase, Std.ExtTreeMap.getElem?_insert_self]

/-- A procedure that runs at a service runs at a connection to one of its databases. -/
theorem run_eq_ok {ε α : Type} {p : Procedure ε α} {result : Except ε α}
    (h : s.run name p = .ok (result, s')) :
    ∃ db, s.database name = .ok db ∧
      let run := p.run Connection.serve ⟨db, s.settings, s.opened⟩
      result = run.1 ∧ s' = { s.setDatabase name run.2.database with opened := run.2.opened } := by
  rw [run] at h
  cases stored : s.database name with
  | error e =>
    rw [stored] at h
    contradiction
  | ok db =>
    rw [stored] at h
    obtain ⟨rfl, rfl⟩ := Prod.mk.inj (Except.ok.inj h)
    exact ⟨db, rfl, rfl, rfl⟩

/-- What a procedure leaves is a later service. -/
theorem Advances.run {ε α : Type} {p : Procedure ε α} {result : Except ε α}
    (h : s.run name p = .ok (result, s')) : s.Advances s' := by
  obtain ⟨db, stored, -, rfl⟩ := run_eq_ok h
  refine ⟨rfl, p.opened_le_run ⟨db, s.settings, s.opened⟩, fun calm => ?_⟩
  obtain ⟨n, sent⟩ := p.sent ⟨db, s.settings, s.opened⟩
  refine calm.setDatabase (s := s) ?_
  rw [sent.faults, calm name db (database_eq_ok stored), List.drop_nil]

end Service

/-! ## One transaction -/

/-- A transaction without errors asks the store to apply its writes, and an accepted commit
holds the answers. -/
def Settlement.Sound (tx : Transaction) (e : Settlement) : Prop :=
  ∀ commit, e.result = .ok commit → tx.deferred = none ∧
    e.met.applyAll tx.commands = (commit.replies, e.left) ∧ commit.transaction = tx.id

namespace Deal

/-- What is known of a transaction. -/
structure Sound (settings : Settings) (d : Deal) : Prop where
  /-- It has what staging some operations leaves behind. -/
  staged : ∃ ops, d.transaction = (Transaction.empty d.transaction.id settings).stageAll ops
  /-- A ticket names the transaction and the place of the pop among the writes. -/
  numbered : ∀ issue ∈ d.issued, issue.ticket = ⟨d.transaction.id, issue.ahead.length⟩
  /-- The pop is there, behind what was staged before, unless there was an error. -/
  placed : ∀ issue ∈ d.issued, d.transaction.deferred = none →
    ∃ later, d.transaction.commands =
      issue.ahead ++ .popFirst (.queue issue.queue) issue.count :: later
  /-- Its end is as it should be. -/
  settled : ∀ e, d.settlement = some e → e.Sound d.transaction

variable {settings : Settings} {d : Deal}

theorem sound_opened (database : String) (id : Nat) :
    Sound settings ⟨database, .empty id settings, [], none⟩ where
  staged := ⟨[], rfl⟩
  numbered := List.forall_mem_nil _
  placed := List.forall_mem_nil _
  settled _ h := by contradiction

/-- Staging keeps what is known.  What was staged before a dequeue stays in front of its pop. -/
theorem Sound.stage (h : d.Sound settings) (unsettled : d.settlement = none) (op : Operation) :
    (d.stage op).Sound settings := by
  have id : (d.stage op).transaction.id = d.transaction.id := d.transaction.id_stage op
  constructor
  case staged =>
    obtain ⟨ops, staged⟩ := h.staged
    refine ⟨ops ++ [op], ?_⟩
    rw [id, Transaction.stageAll, List.foldl_concat, ← Transaction.stageAll, ← staged]
    rfl
  case numbered =>
    rw [id]
    refine List.forall_mem_append.2 ⟨h.numbered, fun issue mem => ?_⟩
    cases op with
    | dequeue queue count =>
      obtain rfl := List.mem_singleton.1 mem
      rfl
    | _ => exact absurd mem List.not_mem_nil
  case placed =>
    refine List.forall_mem_append.2 ⟨fun issue mem clean => ?_, fun issue mem clean => ?_⟩
    all_goals obtain ⟨stageable, before⟩ := Transaction.stageable_of_stage clean
    · obtain ⟨later, commands⟩ := h.placed issue mem before
      refine ⟨later ++ op.commands, ?_⟩
      change (d.transaction.stage op).commands = _
      rw [Transaction.stage_eq stageable, Transaction.extend, commands, List.append_assoc,
        List.cons_append]
    · cases op with
      | dequeue queue count =>
        obtain rfl := List.mem_singleton.1 mem
        refine ⟨[], ?_⟩
        change (d.transaction.stage _).commands = _
        rw [Transaction.stage_eq stageable]
        rfl
      | _ => exact absurd mem List.not_mem_nil
  case settled =>
    intro e settled
    exact absurd (settled.symm.trans unsettled) (Option.some_ne_none e)

/-- A commit where no fault is met ends as it should. -/
theorem Sound.settle (h : d.Sound settings) {c : Connection} (calm : c.database.faults = []) :
    let run := (Client.commit d.transaction).run Connection.serve c
    Settlement.Sound d.transaction
      ⟨c.database.keyspace, run.1, run.2.database.keyspace⟩ := by
  intro run commit committed
  obtain ⟨ops, staged⟩ := h.staged
  have withholds := Database.withholds_of_next (Database.next_of_calm calm)
  simp only [run] at committed ⊢
  rw [staged] at committed ⊢
  rcases run_commit_cases d.transaction.id settings ops withholds with
    ⟨⟨e, failed⟩, -⟩ | ⟨stageable, fit, accepted, left⟩
  · rw [failed] at committed
    contradiction
  · obtain rfl := Except.ok.inj (committed.symm.trans accepted)
    refine ⟨Transaction.deferred_stageAll.2 ⟨stageable, rfl⟩, ?_, ?_⟩
    · rw [left, Transaction.stageAll_eq _ stageable, Keyspace.applyAll_eq,
        ← Operation.editAll_allCommands]
      rfl
    · rw [Transaction.stageAll_eq _ stageable]
      rfl

/-- A ticket of an accepted commit yields what its dequeue popped. -/
theorem Sound.dequeued (h : d.Sound settings) {e : Settlement} (settled : d.settlement = some e)
    {commit : Commit} (accepted : e.result = .ok commit) {issue : Issue}
    (mem : issue ∈ d.issued) :
    let pop := Command.popFirst (.queue issue.queue) issue.count
    ∃ later, d.transaction.commands = issue.ahead ++ pop :: later ∧
      e.met.applyAll (issue.ahead ++ pop :: later) = (commit.replies, e.left) ∧
      ((e.met.applyAll issue.ahead).2.apply pop).1 = .popped (commit.dequeued issue.ticket) := by
  intro pop
  obtain ⟨clean, applied, number⟩ := h.settled e settled commit accepted
  obtain ⟨later, commands⟩ := h.placed issue mem clean
  rw [commands] at applied
  refine ⟨later, commands, applied, ?_⟩
  rw [Keyspace.applyAll_eq] at applied
  have reply := e.met.answers_append_cons issue.ahead pop later
  rw [(Prod.mk.inj applied).1] at reply
  rw [Commit.dequeued, h.numbered issue mem, if_pos number.symm, reply, Keyspace.applyAll_eq,
    Keyspace.apply_eq]
  rfl

end Deal

/-! ## All transactions -/

namespace Session

/-- What is known of a session. -/
structure Sound (s : Session) : Prop where
  calm : s.service.Calm
  counted : ∀ d ∈ s.deals, d.transaction.id ≤ s.service.opened
  distinct : (s.deals.map (·.transaction.id)).Nodup
  deals : ∀ d ∈ s.deals, d.Sound s.service.settings

variable {s : Session} {service : Service} {i : Nat} {d d' : Deal}

theorem sound_initial (calm : service.Calm) : (initial service).Sound :=
  ⟨calm, List.forall_mem_nil _, List.nodup_nil, List.forall_mem_nil _⟩

/-- What others do to the service does not matter. -/
theorem Sound.advance (h : s.Sound) (advances : s.service.Advances service) :
    Sound { s with service := service } where
  calm := advances.calm h.calm
  counted d mem := Nat.le_trans (h.counted d mem) advances.opened
  distinct := h.distinct
  deals d mem := advances.settings ▸ h.deals d mem

/-- A transaction is exchanged for one of the same number. -/
theorem Sound.exchange (h : s.Sound) (there : s.deals[i]? = some d)
    (same : d'.transaction.id = d.transaction.id) (sound : d'.Sound s.service.settings) :
    Sound { s with deals := s.deals.set i d' } := by
  have mem : d ∈ s.deals := List.mem_of_getElem? there
  refine ⟨h.calm, fun v hv => ?_, ?_, fun v hv => ?_⟩
  · rcases List.mem_or_eq_of_mem_set hv with old | rfl
    · exact h.counted v old
    · exact same ▸ h.counted d mem
  · have ids : (s.deals.set i d').map (·.transaction.id) = s.deals.map (·.transaction.id) := by
      refine List.ext_getElem? fun j => ?_
      rw [List.getElem?_map, List.getElem?_map, List.getElem?_set]
      split
      next at' =>
        rw [← at', there, if_pos (List.getElem?_eq_some_iff.1 there).1, Option.map_some, same]
        rfl
      next => rfl
    exact ids ▸ h.distinct
  · rcases List.mem_or_eq_of_mem_set hv with old | rfl
    · exact h.deals v old
    · exact sound

/-- A transaction that is opened has a number that no other one has. -/
theorem Sound.opens (h : s.Sound) (database : String) : (s.opens database).Sound := by
  unfold Session.opens
  split
  next tx service opened =>
    have later := h.advance (.run opened)
    obtain ⟨db, -, begun, rfl⟩ := Service.run_eq_ok opened
    obtain rfl := Except.ok.inj begun
    refine ⟨later.calm, ?_, ?_, ?_⟩
    · exact List.forall_mem_append.2 ⟨later.counted, List.forall_mem_singleton.2 (Nat.le_refl _)⟩
    · rw [List.map_append, List.map_singleton, List.nodup_append]
      refine ⟨h.distinct, List.pairwise_singleton _ _, fun a mem b new => ?_⟩
      obtain ⟨d, hw, rfl⟩ := List.mem_map.1 mem
      obtain rfl := List.mem_singleton.1 new
      exact Nat.ne_of_lt (Nat.lt_succ_of_le (h.counted d hw))
    · exact List.forall_mem_append.2
        ⟨later.deals, List.forall_mem_singleton.2 (Deal.sound_opened database _)⟩
  next => exact h

theorem Sound.asks (h : s.Sound) (database : String) (r : Request) :
    (s.asks database r).Sound := by
  unfold Session.asks
  split
  next run => exact h.advance (.run run)
  next => exact h

theorem Sound.changes (h : s.Sound) (database : String) {f : Database → Database}
    (same : ∀ db, (f db).faults = db.faults) : (s.changes database f).Sound := by
  unfold Session.changes
  split
  next db stored => exact h.advance (.setDatabase stored (same db))
  next => exact h

theorem Sound.settle (h : s.Sound) (there : s.deals[i]? = some d) : (s.settle i d).Sound := by
  have sound := h.deals d (List.mem_of_getElem? there)
  unfold Session.settle
  split
  next result service run =>
    have later := h.advance (.run run)
    obtain ⟨db, stored, rfl, rfl⟩ := Service.run_eq_ok run
    have calm := h.calm _ _ (Service.database_eq_ok stored)
    have met : s.service.contents d.database = db.keyspace := by
      rw [Service.contents, Service.database_eq_ok stored]
    have left (db' : Database) (opened : Nat) :
        Service.contents { s.service.setDatabase d.database db' with opened := opened } d.database =
          db'.keyspace := Service.contents_setDatabase db'
    refine later.exchange there rfl
      ⟨sound.staged, sound.numbered, sound.placed, fun e settled => ?_⟩
    obtain rfl := Option.some.inj settled
    rw [met, left]
    exact sound.settle (c := ⟨db, s.service.settings, s.service.opened⟩) calm
  next => exact h

theorem Sound.withOpen (h : s.Sound) {f : Deal → Session}
    (rest : ∀ d, s.deals[i]? = some d → d.settlement = none → (f d).Sound) :
    (s.withOpen i f).Sound := by
  unfold Session.withOpen
  split
  next d there =>
    split
    next unsettled => exact rest d there (Option.isNone_iff_eq_none.1 unsettled)
    next => exact h
  next => exact h

/-- Every event keeps what is known. -/
theorem Sound.after (h : s.Sound) (event : Event) : (s.after event).Sound := by
  cases event with
  | opens database => exact h.opens database
  | stages i op =>
    refine h.withOpen fun d there unsettled => ?_
    have sound := h.deals d (List.mem_of_getElem? there)
    exact h.exchange there (d.transaction.id_stage op) (sound.stage unsettled op)
  | commits i => exact h.withOpen fun d there _ => h.settle there
  | asks database r => exact h.asks database r
  | appends database key texts => exact h.changes database fun _ => rfl
  | flushes database => exact h.changes database fun _ => rfl

theorem Sound.afterAll (h : s.Sound) (events : List Event) :
    (events.foldl Session.after s).Sound := by
  induction events generalizing s with
  | nil => exact h
  | cons event events ih => exact ih (h.after event)

/-- Whatever happens at a service without faults, transactions have distinct numbers.  Once a
transaction is committed, each of its tickets yields what its own dequeue popped: the answer
that the store gives to this very pop after the writes that were staged before.  The tickets of
every other transaction yield nothing of it. -/
theorem tickets_read_own_pop (service : Service) (calm : service.Calm) (events : List Event) :
    let s := events.foldl Session.after (initial service)
    (s.deals.map (·.transaction.id)).Nodup ∧
      ∀ (i : Nat) (d : Deal) (e : Settlement) (commit : Commit), s.deals[i]? = some d →
        d.settlement = some e → e.result = .ok commit →
        (∀ issue ∈ d.issued,
          let pop := Command.popFirst (.queue issue.queue) issue.count
          ∃ later, d.transaction.commands = issue.ahead ++ pop :: later ∧
            e.met.applyAll (issue.ahead ++ pop :: later) = (commit.replies, e.left) ∧
            ((e.met.applyAll issue.ahead).2.apply pop).1 =
              .popped (commit.dequeued issue.ticket)) ∧
        ∀ (j : Nat) (d' : Deal), j ≠ i → s.deals[j]? = some d' → ∀ issue ∈ d'.issued,
          commit.dequeued issue.ticket = [] := by
  intro s
  have sound : s.Sound := (sound_initial calm).afterAll events
  refine ⟨sound.distinct, fun i d e commit there settled accepted => ⟨fun issue mem => ?_, ?_⟩⟩
  · exact (sound.deals d (List.mem_of_getElem? there)).dequeued settled accepted mem
  · intro j d' other there' issue mem
    have number : commit.transaction = d.transaction.id :=
      ((sound.deals d (List.mem_of_getElem? there)).settled e settled commit accepted).2.2
    have ticket := (sound.deals d' (List.mem_of_getElem? there')).numbered issue mem
    have differ : d'.transaction.id ≠ d.transaction.id := by
      intro same
      refine other ((List.getElem?_inj ?_ sound.distinct).1 ?_)
      · rw [List.length_map]
        exact (List.getElem?_eq_some_iff.1 there').1
      · rw [List.getElem?_map, List.getElem?_map, there, there', Option.map_some, Option.map_some,
          same]
    rw [Commit.dequeued, ticket, number, if_neg differ]

/-- One transaction pops twice, with other writes around, and another one has a dequeue of its
own in another database. -/
theorem two_pops_of_one_transaction :
    let service : Service :=
      ⟨((∅ : Std.ExtTreeMap String Database).insert "default" .empty).insert "cache" .empty,
        .default, 0⟩
    let events : List Event := [.opens "default",
      .stages 0 (.enqueueMembers "ranked" [⟨"b", ⟨1⟩⟩, ⟨"a", ⟨0⟩⟩]), .commits 0,
      .opens "default", .stages 1 (.requireEmptyHash (.entry Party "h")), .opens "cache",
      .stages 1 (.dequeue "ranked" 1), .stages 2 (.dequeue "ranked" 1),
      .stages 1 (.updateHash (.entry Party "h") [("x", "1"), ("y", "2")]),
      .stages 1 (.dequeue "ranked" 1), .commits 1, .commits 2]
    let s := events.foldl Session.after (initial service)
    Service.start ["default", "cache"] .default = .ok service ∧ service.Calm ∧
      ∃ d d' e commit, s.deals[1]? = some d ∧ s.deals[2]? = some d' ∧ d.settlement = some e ∧
        e.result = .ok commit ∧
        d.issued.map (fun issue => commit.dequeuedIds issue.ticket) = [["a"], ["b"]] ∧
        d'.issued.map (fun issue => commit.dequeued issue.ticket) = [[]] := by
  intro service events
  have started : Service.start ["default", "cache"] .default = .ok service := rfl
  have calm := Service.calm_start started
  have general := (tickets_read_own_pop service calm events).2
  have yields : ((events.foldl Session.after (initial service)).deals[1]?.bind fun d =>
      d.settlement.bind fun e => e.result.toOption.map fun commit =>
        d.issued.map fun issue => commit.dequeuedIds issue.ticket) = some [["a"], ["b"]] := by
    decide +kernel
  have other : (events.foldl Session.after (initial service)).deals[2]?.map
      (·.issued.length) = some 1 := by decide +kernel
  generalize events.foldl Session.after (initial service) = s at general yields other ⊢
  obtain ⟨d, there, yields⟩ := Option.bind_eq_some_iff.1 yields
  obtain ⟨e, settled, yields⟩ := Option.bind_eq_some_iff.1 yields
  obtain ⟨commit, accepted, yields⟩ := Option.map_eq_some_iff.1 yields
  obtain ⟨d', there', issued⟩ := Option.map_eq_some_iff.1 other
  have accepted : e.result = .ok commit := by
    cases same : e.result with
    | error _ =>
      rw [same] at accepted
      contradiction
    | ok commit' =>
      rw [same] at accepted
      exact congrArg Except.ok (Option.some.inj accepted)
  have nothing := (general 1 d e commit there settled accepted).2 2 d' (by decide) there'
  refine ⟨started, calm, d, d', e, commit, there, there', settled, accepted, yields, ?_⟩
  refine (List.eq_replicate_iff (n := 1) (a := [])).2 ⟨?_, fun members mem => ?_⟩
  · rw [List.length_map, issued]
  · obtain ⟨issue, from', rfl⟩ := List.mem_map.1 mem
    exact nothing issue from'

end Session

end Matchmaking
