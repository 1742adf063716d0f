import Matchmaking.Proofs.Returning

/-!
# Reading, revising and writing

A client that changes entries reads them, works out new ones from what it read, and
commits one transaction that updates them all (`Revision.attempt`).  The reads are
requests of their own, so entries can have changed before the commit, and what was
read need not have been stored at one moment.

The commit goes through exactly if every key still holds the text that was read from
it (`Revision.execute_current`, `Revision.execute_changed`).  Then the attempt does what
it does alone on the store of that moment (`Revision.Finds.alone_eq`).
-/

namespace Matchmaking

/-! ## Stored texts that describe entries of their ids -/

/-- The key holds a text. -/
def Keyspace.HoldsText (ks : Keyspace) (key : Key) : Prop := ∃ text, ks[key]? = some (.string text)

section

variable {ι : Type} (α : ι → Type) [∀ t, Record (α t)]

/-- Whatever text is stored under an id describes an entry of that id. -/
def Keyspace.Faithful (ks : Keyspace) : Prop :=
  ∀ t id text, ks[Key.entry (α t) id]? = some (.string text) →
    ∃ e : Entry (α t), Entry.deserialize text = .ok e ∧ e.id = id

/-- The text of a record describes an entry of the record's id to every type of its
namespace. -/
def KeepsIds : Prop :=
  ∀ t (a : α t) json, Record.encode a = some json →
    ∀ t', Record.kind (α t') = Record.kind (α t) →
      ∃ e : Entry (α t'), Entry.deserialize json.print = .ok e ∧ e.id = Record.id a

end

/-- Commands that need no type fit whatever their keys hold. -/
theorem Keyspace.firstMismatch_untyped (ts : Types) {commands : List Command}
    (untyped : ∀ c ∈ commands, requiredType c = none) : firstMismatch ts commands = none := by
  induction commands generalizing ts with
  | nil => rfl
  | cons c commands ih =>
    obtain ⟨here, rest⟩ := List.forall_mem_cons.1 untyped
    have fits : mismatch? (ts c.key) c = none := by
      unfold mismatch?
      rw [here]
      cases ts c.key <;> rfl
    rw [firstMismatch, fits]
    exact ih _ rest

/-- Texts can be written over anything. -/
theorem Operation.requiredType_of_writeCommands {ds : List Draft} {c : Command}
    (h : c ∈ ds.flatMap writeCommand) : Keyspace.requiredType c = none := by
  obtain ⟨d, -, text, rfl⟩ := mem_writeCommands h
  rfl

theorem Operation.firstMismatch_update (ts : Keyspace.Types) (ds : List Draft) :
    Keyspace.firstMismatch ts (allCommands [update ds]) = none := by
  rw [allCommands, List.flatMap_singleton, commands]
  exact Keyspace.firstMismatch_untyped ts fun _ => requiredType_of_writeCommands

/-! ## Revisions -/

/-- What is read. -/
structure Target (ι : Type) where
  /-- The type of the entry. -/
  type : ι
  /-- Its id. -/
  id : String

/-- An entry that was read. -/
structure Loaded (α : ι → Type) where
  /-- The type of the entry. -/
  type : ι
  /-- The entry. -/
  entry : Entry (α type)

variable {ι : Type} {α : ι → Type} [∀ t, Record (α t)]

/-- The key that is read. -/
def Target.key (α : ι → Type) [∀ t, Record (α t)] (target : Target ι) : Key :=
  .entry (α target.type) target.id

namespace Loaded

/-- What was read. -/
def target (l : Loaded α) : Target ι := ⟨l.type, l.entry.id⟩

/-- The key that was read. -/
def key (l : Loaded α) : Key := l.entry.key

/-- The text that was read. -/
def text (l : Loaded α) : String := l.entry.previous.getD ""

/-- The entry is what its text describes. -/
def Genuine (l : Loaded α) : Prop := Entry.deserialize l.text = .ok l.entry

/-- The key holds the text that was read. -/
def Current (l : Loaded α) (ks : Keyspace) : Prop := ks[l.key]? = some (.string l.text)

end Loaded

/-- A change of some entries: new entries of the same ids, as a function of everything that
was read. -/
structure Revision (α : ι → Type) [∀ t, Record (α t)] where
  /-- What is read. -/
  targets : List (Target ι)
  /-- What is written instead of one of the entries. -/
  revise : List (Loaded α) → (l : Loaded α) → α l.type
  /-- Ids stay. -/
  id_revise : ∀ loaded l, Record.id (revise loaded l) = l.entry.id
  /-- What is written has a text. -/
  encode_revise : ∀ loaded l, ∃ json, Record.encode (revise loaded l) = some json

namespace Revision

variable (r : Revision α)

/-- What is written instead of one of the entries. -/
def draft (loaded : List (Loaded α)) (l : Loaded α) : Draft :=
  (l.entry.modify fun _ => r.revise loaded l).draft

/-- The update that is committed. -/
def operations (loaded : List (Loaded α)) : List Operation :=
  [.update (loaded.map (r.draft loaded))]

/-- Reads the rest of the entries and commits, or gives up where there is no entry. -/
def goOn (loaded : List (Loaded α)) : List (Target ι) → StoreCall (Option Commit)
  | [] => do
    let commit ← Client.transact (r.operations loaded)
    return some commit
  | target :: targets => do
    match ← Client.get (α target.type) target.id with
    | none => return none
    | some entry => goOn (loaded ++ [⟨target.type, entry⟩]) targets

/-- Reads the entries and commits what they become. -/
def attempt : StoreCall (Option Commit) := r.goOn [] r.targets

/-- The attempt with nobody else at work: its result and the store afterwards. -/
def alone (ks : Keyspace) : Except StoreError (Option Commit) × Keyspace :=
  let (result, c) := r.attempt.run Connection.serve ⟨⟨ks, [], 0⟩, .default, 0⟩
  (result, c.database.keyspace)

/-- What a revision finds in a store. -/
structure Finds (ks : Keyspace) (loaded : List (Loaded α)) : Prop where
  targets : loaded.map Loaded.target = r.targets
  genuine : ∀ l ∈ loaded, l.Genuine
  current : ∀ l ∈ loaded, l.Current ks

/-! ## The update -/

variable {r} {ks : Keyspace} {loaded : List (Loaded α)}

theorem key_draft (r : Revision α) (loaded : List (Loaded α)) (l : Loaded α) :
    (r.draft loaded l).key = l.key :=
  congrArg (Key.entry (α l.type)) (r.id_revise loaded l)

theorem text_draft (r : Revision α) (loaded : List (Loaded α)) (l : Loaded α) :
    ∃ json, Record.encode (r.revise loaded l) = some json ∧
      (r.draft loaded l).text = .ok json.print := by
  obtain ⟨json, encoded⟩ := r.encode_revise loaded l
  refine ⟨json, encoded, ?_⟩
  rw [draft, Entry.draft, Entry.serialize, Entry.modify, encoded]

theorem stageable (r : Revision α) (loaded : List (Loaded α)) (settings : Settings) :
    ∀ op ∈ r.operations loaded, op.Stageable settings := by
  intro op mem
  obtain rfl := List.mem_singleton.1 mem
  intro d hd
  obtain ⟨l, -, rfl⟩ := List.mem_map.1 hd
  obtain ⟨json, -, written⟩ := text_draft r loaded l
  exact ⟨_, written⟩

theorem mem_requirements {need : Requirement} :
    need ∈ Operation.allRequirements (r.operations loaded) ↔
      ∃ l ∈ loaded, need = .present l.key ∨ need = .unchanged (r.draft loaded l) := by
  rw [operations, Operation.allRequirements, List.flatMap_singleton, Operation.requirements,
    List.mem_flatMap]
  simp only [List.mem_map, exists_exists_and_eq_and, List.mem_cons, List.not_mem_nil, or_false,
    key_draft]

theorem holds_unchanged (l : Loaded α) :
    (Requirement.unchanged (r.draft loaded l)).Holds ks ↔ l.Current ks := by
  change ks[(r.draft loaded l).key]? = _ ↔ _
  rw [key_draft]
  rfl

/-- The update goes through exactly if every key holds the text that was read from it. -/
theorem holds_operations :
    (∀ need ∈ Operation.allRequirements (r.operations loaded), need.Holds ks) ↔
      ∀ l ∈ loaded, l.Current ks := by
  constructor
  · exact fun holds l hl => (holds_unchanged l).1 (holds _ (mem_requirements.2 ⟨l, hl, .inr rfl⟩))
  · intro current need mem
    obtain ⟨l, hl, rfl | rfl⟩ := mem_requirements.1 mem
    · exact ne_of_eq_of_ne (current l hl) (by simp)
    · exact (holds_unchanged l).2 (current l hl)

theorem execute_current (current : ∀ l ∈ loaded, l.Current ks) :
    ks.execute (Keyspace.batchOf (r.operations loaded)) =
      (.ok (.committed (ks.answers (Operation.allCommands (r.operations loaded)))),
        Operation.allEffects ks (r.operations loaded)) :=
  Keyspace.execute_committed (stageable r loaded .default) (holds_operations.2 current)
    (Operation.firstMismatch_update _ _)

/-- As long as every key holds some text, an update that does not go through is aborted. -/
theorem execute_changed (texts : ∀ l ∈ loaded, ks.HoldsText l.key)
    (changed : ¬ ∀ l ∈ loaded, l.Current ks) (id : Nat) (settings : Settings) :
    let executed := ks.execute (Keyspace.batchOf (r.operations loaded))
    executed.2 = ks ∧
      ((Transaction.empty id settings).stageAll (r.operations loaded)).conclude executed.1 =
        .error (.rejected .aborted) := by
  have staged := stageable r loaded settings
  obtain ⟨rejection, blamed, concluded⟩ := Transaction.conclude_rejected id staged ks
  have aborted : rejection = .aborted := by
    refine blamed.eq_aborted_iff.2 fun need mem nameable => ?_
    obtain ⟨l, hl, rfl | rfl⟩ := mem_requirements.1 mem
    · obtain ⟨text, there⟩ := texts l hl
      exact ne_of_eq_of_ne there (by simp)
    · exact absurd rfl nameable
  rw [Keyspace.execute_rejected staged (mt holds_operations.1 changed), ← aborted]
  exact ⟨rfl, concluded⟩

/-! ## An attempt request by request -/

/-- What an attempt does when its transaction is open. -/
def committing (r : Revision α) (loaded : List (Loaded α)) (id : Nat) (settings : Settings) :
    StoreCall (Option Commit) :=
  .ask (.execute (Keyspace.batchOf (r.operations loaded))) fun outcome => do
    let tx := (Transaction.empty id settings).stageAll (r.operations loaded)
    let commit ← Procedure.done (tx.conclude outcome)
    return some commit

/-- What an attempt does with the answer to a read. -/
def afterRead (r : Revision α) (loaded : List (Loaded α)) (target : Target ι)
    (targets : List (Target ι)) (answer : Except StoreError (Option String)) :
    StoreCall (Option Commit) :=
  match (answer.bind Client.entryOfText : Except StoreError (Option (Entry (α target.type)))) with
  | .ok (some entry) => r.goOn (loaded ++ [⟨target.type, entry⟩]) targets
  | .ok none => .done (.ok none)
  | .error e => .done (.error e)

theorem goOn_cons (target : Target ι) (targets : List (Target ι)) :
    r.goOn loaded (target :: targets) =
      .ask (.readString (target.key α)) (r.afterRead loaded target targets) := by
  rw [goOn]
  change Procedure.ask _ _ = _
  congr 1
  funext answer
  unfold afterRead
  cases answer with
  | error e => rfl
  | ok text =>
    cases found :
      (Client.entryOfText text : Except StoreError (Option (Entry (α target.type)))) with
    | error e => simp only [Procedure.bind, Except.bind, found]
    | ok entry =>
      simp only [Procedure.bind, Except.bind, found]
      cases entry <;> rfl

theorem goOn_nil :
    r.goOn loaded [] = .ask .begin fun tx => do
      let commit ← Client.commit (tx.stageAll (r.operations loaded))
      return some commit := rfl

/-- Opening the transaction leads to its batch, unless there was nothing to read. -/
theorem commit_operations (id : Nat) (settings : Settings) :
    (do
      let commit ← Client.commit ((Transaction.empty id settings).stageAll (r.operations loaded))
      return some commit) =
      if loaded = [] then .done (.ok (some ⟨id, []⟩)) else r.committing loaded id settings := by
  have submission := Transaction.submission_stageAll id (stageable r loaded settings)
  rw [Client.commit, submission]
  cases loaded with
  | nil => rfl
  | cons l loaded =>
    have something : Operation.allDemands (r.operations (l :: loaded)) ≠ [] := by
      simp [operations, Operation.allDemands, Operation.demands]
    rw [if_neg fun none => something none.2]
    rfl

/-! ## An attempt alone -/

/-- A text that describes an entry is read as that entry. -/
theorem afterRead_eq {l : Loaded α} (genuine : l.Genuine) (targets : List (Target ι)) :
    r.afterRead loaded l.target targets (.ok (some l.text)) = r.goOn (loaded ++ [l]) targets := by
  have read : ((Except.ok (some l.text)).bind Client.entryOfText :
      Except StoreError (Option (Entry (α l.target.type)))) = .ok (some l.entry) :=
    Keyspace.entryOfText_eq genuine
  rw [afterRead, read]
  rfl

theorem run_goOn_nil (current : ∀ l ∈ loaded, l.Current ks) (received opened : Nat)
    (settings : Settings) :
    ∃ commit c, (r.goOn loaded []).run Connection.serve ⟨⟨ks, [], received⟩, settings, opened⟩ =
        (.ok (some commit), c) ∧
      c.database.keyspace = Operation.allEffects ks (r.operations loaded) := by
  let c : Connection := ⟨⟨ks, [], received⟩, settings, opened⟩
  have staged := stageable r loaded settings
  obtain ⟨concluded, left⟩ := run_commit (c := { c with opened := opened + 1 }) (opened + 1) rfl
    staged
  rw [execute_current current] at concluded left
  have accepted := concluded.trans (Transaction.conclude_committed (opened + 1) staged _)
  have run : (Client.transact (r.operations loaded)).run Connection.serve c = (.ok _, _) :=
    Prod.ext accepted rfl
  exact ⟨_, _, Procedure.run_bind_ok run, left⟩

/-- Where a revision finds what was read, it reads it again and commits. -/
theorem run_goOn {later : List (Loaded α)} (genuine : ∀ l ∈ later, l.Genuine)
    (current : ∀ l ∈ loaded ++ later, l.Current ks) (received opened : Nat) (settings : Settings) :
    ∃ commit c, (r.goOn loaded (later.map Loaded.target)).run Connection.serve
        ⟨⟨ks, [], received⟩, settings, opened⟩ = (.ok (some commit), c) ∧
      c.database.keyspace = Operation.allEffects ks (r.operations (loaded ++ later)) := by
  induction later generalizing loaded with
  | nil =>
    rw [List.append_nil] at current ⊢
    exact run_goOn_nil current received opened settings
  | cons l later ih =>
    obtain ⟨here, rest⟩ := List.forall_mem_cons.1 genuine
    have shift : loaded ++ l :: later = (loaded ++ [l]) ++ later := by simp
    have there : ks.string l.key = .ok (some l.text) := by
      rw [Keyspace.string, current l (by simp)]
    rw [shift] at current ⊢
    obtain ⟨commit, c, run, left⟩ := ih rest current
    refine ⟨commit, c, ?_, left⟩
    rw [List.map_cons, goOn_cons, ← run, ← afterRead_eq here, ← there]
    rfl

theorem Finds.alone_eq (h : r.Finds ks loaded) :
    ∃ commit, r.alone ks =
      (.ok (some commit), Operation.allEffects ks (r.operations loaded)) := by
  have current : ∀ l ∈ [] ++ loaded, l.Current ks := h.current
  obtain ⟨commit, c, run, left⟩ := run_goOn (r := r) h.genuine current 0 0 .default
  rw [h.targets] at run
  refine ⟨commit, ?_⟩
  rw [alone, attempt, run]
  exact congrArg (Prod.mk _) left

end Revision

/-! ## What an update leaves -/

/-- After an update every key holds what it held, or the text of a draft. -/
theorem Operation.getElem?_update {ds : List Draft}
    (written : ∀ d ∈ ds, ∃ text, d.text = .ok text) (ks : Keyspace) (key : Key) :
    let after := allEffects ks [update ds]
    ((∀ d ∈ ds, d.key ≠ key) ∧ after[key]? = ks[key]?) ∨
      ∃ d ∈ ds, d.key = key ∧ ∃ text, d.text = .ok text ∧ after[key]? = some (.string text) := by
  change (_ ∧ (ds.foldl Draft.write ks)[key]? = _) ∨
    ∃ d ∈ ds, _ ∧ ∃ text, _ ∧ (ds.foldl Draft.write ks)[key]? = _
  induction ds generalizing ks with
  | nil => exact .inl ⟨fun _ mem => absurd mem List.not_mem_nil, rfl⟩
  | cons d ds ih =>
    obtain ⟨⟨text, here⟩, rest⟩ := List.forall_mem_cons.1 written
    rw [List.foldl_cons]
    rcases ih rest (d.write ks) with ⟨none, same⟩ | ⟨d', mem, own, text', written', there⟩
    · rw [same, Draft.write, here]
      by_cases this : d.key = key
      · exact .inr ⟨d, List.mem_cons_self, this, text, here, by simp [this]⟩
      · exact .inl ⟨List.forall_mem_cons.2 ⟨this, none⟩, by simp [this]⟩
    · exact .inr ⟨d', List.mem_cons_of_mem d mem, own, text', written', there⟩

namespace Revision

variable (r : Revision α) (loaded : List (Loaded α)) (ks : Keyspace) (key : Key)

/-- After a revision every key holds what it held, or the text of a new entry. -/
theorem getElem?_operations :
    let after := Operation.allEffects ks (r.operations loaded)
    ((∀ l ∈ loaded, l.key ≠ key) ∧ after[key]? = ks[key]?) ∨
      ∃ l ∈ loaded, l.key = key ∧ ∃ json, Record.encode (r.revise loaded l) = some json ∧
        after[key]? = some (.string json.print) := by
  have written : ∀ d ∈ loaded.map (r.draft loaded), ∃ text, d.text = .ok text :=
    stageable r loaded .default _ List.mem_cons_self
  rcases Operation.getElem?_update written ks key with
    ⟨none, same⟩ | ⟨d, mem, own, text, wrote, there⟩
  · refine .inl ⟨fun l hl => ?_, same⟩
    rw [← r.key_draft loaded]
    exact none _ (List.mem_map_of_mem hl)
  · obtain ⟨l, hl, rfl⟩ := List.mem_map.1 mem
    obtain ⟨json, encoded, text'⟩ := r.text_draft loaded l
    refine .inr ⟨l, hl, (r.key_draft loaded l).symm.trans own, json, encoded, ?_⟩
    rw [text'] at wrote
    obtain rfl := Except.ok.inj wrote
    exact there

/-- A key that holds a text holds a text after a revision. -/
theorem holdsText_operations {ks : Keyspace} {key : Key} (h : ks.HoldsText key) :
    (Operation.allEffects ks (r.operations loaded)).HoldsText key := by
  rcases r.getElem?_operations loaded ks key with ⟨-, same⟩ | ⟨-, -, -, json, -, there⟩
  · obtain ⟨text, there⟩ := h
    exact ⟨text, same.trans there⟩
  · exact ⟨_, there⟩

end Revision

theorem Keyspace.Faithful.operations {ks : Keyspace} (h : ks.Faithful α) (keeps : KeepsIds α)
    (r : Revision α) (loaded : List (Loaded α)) :
    (Operation.allEffects ks (r.operations loaded)).Faithful α := by
  intro t id text stored
  rcases r.getElem?_operations loaded ks (.entry (α t) id) with
    ⟨-, same⟩ | ⟨l, -, own, json, encoded, there⟩
  · exact h t id text (same.symm.trans stored)
  · obtain ⟨kind, same⟩ := (Key.compose_inj Record.kind_plain Record.kind_plain).1 own
    obtain ⟨e, read, id'⟩ := keeps l.type _ json encoded t kind.symm
    rw [stored] at there
    injection there with there
    injection there with there
    exact ⟨e, there ▸ read, id'.trans ((r.id_revise loaded l).trans same)⟩

end Matchmaking
