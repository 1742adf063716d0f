import Matchmaking.Proofs.FiniteScores
import Matchmaking.Proofs.Locality
import Matchmaking.Proofs.Representation
import Matchmaking.Proofs.Returning

/-!
# Entries read back after a commit

A committed transaction that creates or updates an entry leaves its text under its key,
and the text stays there until something else is written to the key
(`Database.Keeps.after`).  So a read finds what the text describes, `reread record`, or
fails because it describes nothing.

Members, parties and requests of players describe themselves.  The request of a party
describes itself up to its score.  A score that is not finite has a stored form that no
reader accepts, and a commit does not check this: the request is there and cannot be
read.  A finite score can be read, and the score of a time in milliseconds reads back
exactly.
-/

namespace Matchmaking

/-- The record that the stored form of a record describes. -/
def reread {α : Type} [Record α] (record : α) : Option α :=
  (Record.encode record).bind Record.decode

/-! ## Records -/

theorem Member.reread_eq (m : Member) : reread m = some m := m.ofJson?_toJson

theorem Party.reread_eq (p : Party) : reread p = some p := p.ofJson?_toJson

theorem PlayerRequest.reread_eq (r : PlayerRequest) : reread r = some r := r.ofJson?_toJson

theorem Json.score?_ofScore_eq (s : Score) : (ofScore s).score? = s.reread := by
  unfold ofScore Score.reread
  cases s.numeral? <;> rfl

/-- The request of a party is read with what is read as its score. -/
theorem PartyRequest.reread_eq (r : PartyRequest) :
    reread r = r.score.reread.map fun s => { r with score := s } := by
  show ofJson? r.toJson = _
  rw [ofJson?, toJson, Json.fields?_record]
  simp [Json.field?, Json.text?, Json.text, Json.textMap?_ofTextMap, Party.ofJson?_toJson,
    Json.score?_ofScore_eq]
  cases r.score.reread <;> rfl

/-- A stored entry is read as what its record is reread as. -/
theorem Entry.entryOfText_serialize {α : Type} [Record α] {e : Entry α} {text : String}
    (written : e.serialize = .ok text) :
    Client.entryOfText (some text) =
      match reread e.record with
      | some record => .ok (some (⟨record, some text⟩ : Entry α))
      | none => .error (.serialization .unreadable) := by
  unfold serialize at written
  unfold reread
  cases encoded : Record.encode e.record with
  | none =>
    rw [encoded] at written
    contradiction
  | some json =>
    rw [encoded] at written
    obtain rfl : json.print = text := Except.ok.inj written
    have filled : json.print.isEmpty = false := by
      rw [← Bool.not_eq_true, String.isEmpty_iff]
      exact json.print_ne_empty
    rw [Client.entryOfText, filled, Entry.deserialize, Json.parse_print, Option.bind_some]
    cases (Record.decode json : Option α) <;> rfl

/-! ## What a transaction leaves at a key -/

namespace Operation

/-- An operation writes a draft, and nothing to its key after that. -/
inductive WritesLast (d : Draft) : Operation → Prop where
  | create (front : List Draft) {back : List Draft} (last : ∀ d' ∈ back, d'.key ≠ d.key) :
      WritesLast d (.create (front ++ d :: back))
  | update (front : List Draft) {back : List Draft} (last : ∀ d' ∈ back, d'.key ≠ d.key) :
      WritesLast d (.update (front ++ d :: back))

/-- A transaction writes a draft, and nothing to its key after that. -/
inductive WrittenLast (d : Draft) : List Operation → Prop where
  | among (before : List Operation) {op : Operation} {after : List Operation}
      (writes : op.WritesLast d) (silent : ∀ command ∈ allCommands after, command.key ≠ d.key) :
      WrittenLast d (before ++ op :: after)

variable {d : Draft} {text : String}

theorem getElem?_foldl_write {front back : List Draft} (last : ∀ d' ∈ back, d'.key ≠ d.key)
    (written : d.text = .ok text) (ks : Keyspace) :
    ((front ++ d :: back).foldl Draft.write ks)[d.key]? = some (.string text) := by
  rw [List.foldl_append, List.foldl_cons,
    getElem?_foldl (fun ks d' mem => getElem?_write (last d' mem) ks), Draft.write, written]
  simp

theorem WritesLast.getElem? {op : Operation} (writes : op.WritesLast d)
    (written : d.text = .ok text) (ks : Keyspace) :
    (op.effect ks)[d.key]? = some (.string text) := by
  cases writes with
  | create front last => exact getElem?_foldl_write last written ks
  | update front last => exact getElem?_foldl_write last written ks

theorem WrittenLast.getElem? {ops : List Operation} (writes : WrittenLast d ops)
    (written : d.text = .ok text) (ks : Keyspace) :
    (allEffects ks ops)[d.key]? = some (.string text) := by
  cases writes with
  | among before writes silent =>
    rw [allEffects_append, allEffects, List.foldl_cons, ← allEffects, ← editAll_allCommands,
      Keyspace.getElem?_editAll_of_ne silent]
    exact writes.getElem? written _

/-- An entry that was staged has a text. -/
theorem WrittenLast.exists_text {ops : List Operation} (writes : WrittenLast d ops)
    {settings : Settings} (staged : ∀ op ∈ ops, op.Stageable settings) :
    ∃ text, d.text = .ok text := by
  cases writes with
  | among before writes silent =>
    have staged := staged _ (List.mem_append_right before List.mem_cons_self)
    cases writes with
    | create front last => exact staged d (List.mem_append_right front List.mem_cons_self)
    | update front last => exact staged d (List.mem_append_right front List.mem_cons_self)

end Operation

/-! ## What later changes leave at a key -/

namespace Database

/-- A batch that names a key in a command is answered as committed. -/
def Applied (key : Key) (batch : Batch) (answer : Except StoreError Outcome) : Prop :=
  key ∈ batch.writes ∧ ∃ replies, answer = .ok (.committed replies)

/-- A change writes a key: a batch that names it is committed, or every key is removed.  Texts
are appended to lists only.  Faults write the key if another client is to write it. -/
def Change.Writes (db : Database) (key : Key) : Change → Prop
  | .execute batch => Applied key batch (db.execute batch).1
  | .append _ _ => False
  | .flush => True
  | .arm faults => ∃ commands, some (.precede commands) ∈ faults ∧
      ∃ command ∈ commands, command.key = key

/-- None of the changes writes the key. -/
def Unwritten (db : Database) (key : Key) : List Change → Prop
  | [] => True
  | c :: changes => ¬ c.Writes db key ∧ (db.change c).Unwritten key changes

/-- A database holds a text at a key, and the faults to come will not write the key. -/
structure Keeps (db : Database) (key : Key) (text : String) : Prop where
  /-- The key holds the text. -/
  stored : db.keyspace[key]? = some (.string text)
  /-- Other clients will not write the key. -/
  silent : ¬ (Change.arm db.faults).Writes db key

variable {key : Key} {text : String} {db : Database}

/-- A batch leaves a key alone if it does not name it or is not committed. -/
theorem getElem?_execute {ks : Keyspace} {batch : Batch}
    (unwritten : ¬ Applied key batch (ks.execute batch).1) :
    (ks.execute batch).2[key]? = ks[key]? := by
  by_cases named : key ∈ batch.writes
  · have refused : ∀ replies, (ks.execute batch).1 ≠ .ok (.committed replies) :=
      fun replies committed => unwritten ⟨named, replies, committed⟩
    cases held : (batch.conditions.map ks.holds).all id with
    | false => simp only [Keyspace.execute, held, Bool.false_eq_true, if_false]
    | true =>
      cases checked : Keyspace.firstMismatch ks.types batch.commands with
      | some misfit => simp only [Keyspace.execute, held, checked, if_true]
      | none =>
        refine absurd ?_ (refused (ks.applyAll batch.commands).1)
        simp only [Keyspace.execute, held, checked, if_true]
  · exact Keyspace.getElem?_execute_of_not_mem named

theorem getElem?_meet {ks : Keyspace} {batch : Batch} {fault : Option Fault}
    (silent : ∀ commands, fault = some (.precede commands) → ∀ command ∈ commands,
      command.key ≠ key)
    (unwritten : ¬ Applied key batch (meet ks batch fault).1) :
    (meet ks batch fault).2[key]? = ks[key]? := by
  cases fault with
  | none => exact getElem?_execute unwritten
  | some fault =>
    cases fault with
    | precede commands =>
      have unnamed : key ∉ (⟨[], commands⟩ : Batch).writes := by
        intro named
        obtain ⟨command, mem, same⟩ := List.mem_map.1 named
        exact silent commands rfl command mem same
      exact (getElem?_execute unwritten).trans (Keyspace.getElem?_execute_of_not_mem unnamed)
    | _ => rfl

/-- A text stays where it is until a change writes its key. -/
theorem Keeps.after (kept : db.Keeps key text) {c : Change} (unwritten : ¬ c.Writes db key) :
    (db.change c).Keeps key text := by
  cases c with
  | execute batch =>
    have silent : ∀ commands, db.faults.head?.join = some (.precede commands) →
        ∀ command ∈ commands, command.key ≠ key := by
      intro commands next command mem same
      have armed := List.mem_of_mem_head? (Option.join_eq_some_iff.1 next)
      exact kept.silent ⟨commands, armed, command, mem, same⟩
    refine ⟨(getElem?_meet silent unwritten).trans kept.stored, ?_⟩
    rintro ⟨commands, armed, named⟩
    exact kept.silent ⟨commands, List.mem_of_mem_tail armed, named⟩
  | append list texts =>
    refine ⟨?_, kept.silent⟩
    show (db.keyspace.append list texts).2[key]? = _
    by_cases here : list = key
    · -- The key holds a text, so nothing can be appended.
      rw [here, Keyspace.append, kept.stored]
      exact kept.stored
    · rw [← kept.stored]
      unfold Keyspace.append
      split
      next => simp [here]
      next => simp [here]
      next => rfl
  | flush => exact absurd trivial unwritten
  | arm faults => exact ⟨kept.stored, unwritten⟩

theorem Keeps.afterAll (kept : db.Keeps key text) {changes : List Change}
    (unwritten : db.Unwritten key changes) : (changes.foldl change db).Keeps key text := by
  induction changes generalizing db with
  | nil => exact kept
  | cons c changes ih => exact ih (kept.after unwritten.1) unwritten.2

end Database

/-! ## Reading what was committed -/

/-- After a commit that wrote an entry, the entry is read as what its record is reread as,
until something writes its key. -/
theorem Entry.get_committed {α : Type} [Record α] {e : Entry α} {c c' left : Connection} {id : Nat}
    {settings : Settings} {ops : List Operation} {changes : List Database.Change} {commit : Commit}
    (calm : c.database.faults = []) (writes : Operation.WrittenLast e.draft ops)
    (committed : (Client.commit ((Transaction.empty id settings).stageAll ops)).run
      Connection.serve c = (.ok commit, left))
    (unwritten : left.database.Unwritten e.key changes)
    (later : c'.database = changes.foldl Database.change left.database) :
    ∃ text, e.serialize = .ok text ∧ (Client.get α e.id).run Connection.serve c' =
      (match reread e.record with
        | some record => .ok (some ⟨record, some text⟩)
        | none => .error (.serialization .unreadable), c') := by
  have withholds := Database.withholds_of_next (Database.next_of_calm calm)
  have ends := run_commit_cases id settings ops withholds
  obtain ⟨n, sent⟩ := (Client.commit ((Transaction.empty id settings).stageAll ops)).sent c
  rw [committed] at ends sent
  rcases ends with ⟨⟨error, failed⟩, -⟩ | ⟨staged, -, -, effects⟩
  · contradiction
  · obtain ⟨text, written⟩ := writes.exists_text staged
    have kept : left.database.Keeps e.key text := by
      refine ⟨?_, ?_⟩
      · rw [effects]
        exact writes.getElem? written _
      · rintro ⟨commands, armed, -⟩
        rw [sent.faults, calm, List.drop_nil] at armed
        contradiction
    have stored : c'.database.keyspace[Key.entry α e.id]? = some (.string text) :=
      later ▸ (kept.afterAll unwritten).stored
    refine ⟨text, written, ?_⟩
    rw [Client.run_get, Keyspace.get, Keyspace.string, stored]
    exact congrArg (·, c') (Entry.entryOfText_serialize written)

/-- A committed transaction that created or updated an entry left a text that is read for the
entry until something writes its key.  Read is what the record is reread as: members, parties
and requests of players as they were, and the request of a party with the score that its score
is reread as.  Exactly the scores that are not finite are not reread, and then the read fails.
The scores of whole numbers below a tenth of `2 ^ 53` are reread as they were. -/
theorem committed_entries_reread {α : Type} [Record α] (e : Entry α) (c c' : Connection) (id : Nat)
    (settings : Settings) (ops : List Operation) (changes : List Database.Change)
    (calm : c.database.faults = []) (writes : Operation.WrittenLast e.draft ops) :
    let run := (Client.commit ((Transaction.empty id settings).stageAll ops)).run
      Connection.serve c
    (∃ commit, run.1 = .ok commit) → run.2.database.Unwritten e.key changes →
    c'.database = changes.foldl Database.change run.2.database →
    (∃ text, e.serialize = .ok text ∧ (Client.get α e.id).run Connection.serve c' =
      (match reread e.record with
        | some record => .ok (some ⟨record, some text⟩)
        | none => .error (.serialization .unreadable), c')) ∧
    (∀ m : Member, reread m = some m) ∧ (∀ p : Party, reread p = some p) ∧
    (∀ r : PlayerRequest, reread r = some r) ∧
    (∀ r : PartyRequest, reread r = r.score.reread.map fun s => { r with score := s }) ∧
    (∀ s : Score, s.reread = none ↔ s.isFinite = false) ∧
    (∀ n : Nat, 10 * n < 2 ^ 53 → (Score.ofNat n).reread = some (.ofNat n)) := by
  rintro run ⟨commit, committed⟩ unwritten later
  have read := Entry.get_committed calm writes (Prod.ext committed rfl) unwritten later
  exact ⟨read, Member.reread_eq, Party.reread_eq, PlayerRequest.reread_eq, PartyRequest.reread_eq,
    fun s => s.reread_eq_none_iff, fun n small => Score.readsBack_ofNat small⟩

/-- A request is stored and queued.  It leaves the queue, a batch that would delete it is rejected,
and then it is read as it was. -/
theorem unqueued_request_reread :
    let party : Party := ⟨"p", "ann", "t", 1, 2, (∅ : TextMap).insert "ann" "t", .matchmaking⟩
    let r : PartyRequest := ⟨"p", party, "duel", ∅, .ofNat 1754000000001⟩
    let ops : List Operation :=
      [.create [(Entry.fresh r).draft], .enqueue [(Entry.fresh r).queuePlace]]
    let pop : Batch := ⟨[.keyExists (.entry PartyRequest "p")], [.popFirst (.queue "duel") 1]⟩
    let deletion : Batch := ⟨[.keyExists ⟨"absent"⟩], [.delete (.entry PartyRequest "p")]⟩
    let changes : List Database.Change := [.execute pop, .execute deletion]
    let run := (Client.commit ((Transaction.empty 1 .default).stageAll ops)).run Connection.serve
      ⟨.empty, .default, 1⟩
    let c : Connection := ⟨changes.foldl Database.change run.2.database, .default, 1⟩
    run.1 = .ok ⟨1, [.done, .done]⟩ ∧ ∃ text,
      (Client.get PartyRequest "p").run Connection.serve c = (.ok (some ⟨r, some text⟩), c) := by
  intro party r ops pop deletion changes run c
  have committed : run.1 = .ok ⟨1, [.done, .done]⟩ := by decide +kernel
  have writes : Operation.WrittenLast (Entry.fresh r).draft ops :=
    .among [] (.create [] (List.forall_mem_nil _)) (by decide)
  have unwritten : run.2.database.Unwritten (Entry.fresh r).key changes := by
    refine ⟨fun written => absurd written.1 (by decide), fun written => ?_, trivial⟩
    have rejected : ((run.2.database.change (.execute pop)).execute deletion).1 =
        .ok (.rejected [false]) := by decide +kernel
    obtain ⟨replies, applied⟩ := written.2
    rw [rejected] at applied
    cases applied
  obtain ⟨⟨text, -, read⟩, -, -, -, requests, -, whole⟩ :=
    committed_entries_reread (Entry.fresh r) ⟨.empty, .default, 1⟩ c 1 .default ops changes rfl
      writes ⟨_, committed⟩ unwritten rfl
  have same : reread r = some r := by
    rw [requests, whole 1754000000001 (by decide)]
    rfl
  rw [show reread (Entry.fresh r).record = some r from same] at read
  exact ⟨committed, text, read⟩

/-- The request of a party whose score is not a number is stored by a commit that succeeds, and
cannot be read. -/
theorem unordered_request_unreadable :
    let party : Party := ⟨"p", "ann", "t", 1, 2, (∅ : TextMap).insert "ann" "t", .matchmaking⟩
    let r : PartyRequest := ⟨"p", party, "duel", ∅, .nan⟩
    let ops : List Operation := [.create [(Entry.fresh r).draft]]
    let run := (Client.commit ((Transaction.empty 1 .default).stageAll ops)).run Connection.serve
      ⟨.empty, .default, 1⟩
    run.1 = .ok ⟨1, [.done]⟩ ∧ (Client.get PartyRequest "p").run Connection.serve run.2 =
      (.error (.serialization .unreadable), run.2) := by
  intro party r ops run
  have committed : run.1 = .ok ⟨1, [.done]⟩ := by rfl
  have writes : Operation.WrittenLast (Entry.fresh r).draft ops :=
    .among [] (.create [] (List.forall_mem_nil _)) (List.forall_mem_nil _)
  have unwritten : run.2.database.Unwritten (Entry.fresh r).key [] := trivial
  have later : run.2.database = [].foldl Database.change run.2.database := rfl
  obtain ⟨text, -, read⟩ := Entry.get_committed rfl writes (Prod.ext committed rfl) unwritten later
  have lost : reread (Entry.fresh r).record = none := by
    rw [PartyRequest.reread_eq]
    rfl
  rw [lost] at read
  exact ⟨committed, read⟩

end Matchmaking
