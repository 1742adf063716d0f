import Mathlib.Data.List.Forall2
import Matchmaking.Proofs.Collections
import Matchmaking.Transaction

/-!
# The table of operations

What a staging call promises is one row of a table: its *requirements*, each with
the kind of failure and the label it is reported under, and its *effect* on a store.  The
rows speak of stored values and of the views of collections.  They know nothing
of conditions and commands.

A transaction keeps two things for a call: *demands*, which are conditions with
their concerns and labels, and commands.  `stage_eq` says that staging appends
those of the call to those of the transaction, and nothing else, as long as the
call can be staged (`Operation.Stageable`).  Demand by demand they agree with the
requirements of the row (`demands_meet`), and together the commands make its
effect (`editAll_commands`).
-/

namespace Matchmaking

/-! ## Rows -/

/-- One thing an operation needs of a store. -/
structure Requirement where
  /-- What it is reported as. -/
  kind : FailureKind
  /-- The label it is reported under. -/
  label : String
  /-- Whether a store meets it. -/
  Holds : Keyspace → Prop

namespace Requirement

/-- A key holds nothing. -/
def absent (key : Key) : Requirement := ⟨.alreadyExists, key.text, fun ks => ks[key]? = none⟩

/-- A key holds something. -/
def present (key : Key) : Requirement := ⟨.notFound, key.text, fun ks => ks[key]? ≠ none⟩

/-- A key holds the text that an entry was read from. -/
def unchanged (d : Draft) : Requirement :=
  ⟨.aborted, "", fun ks => ks[d.key]? = some (.string (d.previous.getD ""))⟩

/-- A queue shows at least so many members. -/
def longEnough (queue : String) (count : Nat) : Requirement :=
  ⟨.insufficientEntries, (Key.queue queue).text,
    fun ks => ∃ set, ks.sortedSetAt? (.queue queue) = some set ∧ count ≤ set.size⟩

/-- A list shows no elements. -/
def emptyList (list : Key) : Requirement :=
  ⟨.alreadyExists, list.text, fun ks => ks.listAt? list = some []⟩

/-- A hash shows no fields. -/
def emptyHash (hash : Key) : Requirement :=
  ⟨.alreadyExists, hash.text, fun ks => ks.hashAt? hash = some ∅⟩

/-- A hash shows a field. -/
def hasField (hash : Key) (field : String) : Requirement :=
  ⟨.notFound, hash.fieldLabel field,
    fun ks => ∃ fields, ks.hashAt? hash = some fields ∧ field ∈ fields⟩

/-- A key shows no hash with the field. -/
def lacksField (hash : Key) (field : String) : Requirement :=
  ⟨.alreadyExists, hash.fieldLabel field,
    fun ks => ∀ fields, ks.hashAt? hash = some fields → field ∉ fields⟩

/-- A hash shows a field with a text. -/
def fieldIs (hash : Key) (field value : String) : Requirement :=
  ⟨.failedCondition, hash.fieldLabel field ++ " == " ++ value,
    fun ks => ∃ fields, ks.hashAt? hash = some fields ∧ fields[field]? = some value⟩

/-- A key shows no hash with the field and the text. -/
def fieldIsNot (hash : Key) (field value : String) : Requirement :=
  ⟨.failedCondition, hash.fieldLabel field ++ " != " ++ value,
    fun ks => ∀ fields, ks.hashAt? hash = some fields → fields[field]? ≠ some value⟩

end Requirement

/-- A store with the text of an entry under its key. -/
def Draft.write (ks : Keyspace) (d : Draft) : Keyspace :=
  match d.text with
  | .ok text => ks.insert d.key (.string text)
  | .error _ => ks

namespace Operation

/-- What an operation needs of the store. -/
def requirements : Operation → List Requirement
  | .create entries => entries.map fun d => .absent d.key
  | .update entries => entries.flatMap fun d => [.present d.key, .unchanged d]
  | .delete entries => entries.flatMap fun d => [.present d.key, .unchanged d]
  | .deleteKey key => [.present key]
  | .enqueue _ => []
  | .enqueueMembers _ _ => []
  | .unqueue _ => []
  | .dequeue queue count => [.longEnough queue count]
  | .createHash hash _ => [.emptyHash hash]
  | .updateHash _ _ => []
  | .deleteField hash field => [.present hash, .hasField hash field]
  | .requireEmptyList list => [.emptyList list]
  | .requireEmptyHash hash => [.emptyHash hash]
  | .requireField hash field => [.hasField hash field]
  | .requireNoField hash field => [.lacksField hash field]
  | .requireFieldEqual hash field value => [.fieldIs hash field value]
  | .requireFieldNotEqual hash field value => [.fieldIsNot hash field value]

/-- What an operation does to the store. -/
def effect (ks : Keyspace) : Operation → Keyspace
  | .create entries => entries.foldl Draft.write ks
  | .update entries => entries.foldl Draft.write ks
  | .delete entries => entries.foldl (fun ks d => ks.erase d.key) ks
  | .deleteKey key => ks.erase key
  | .enqueue places => places.foldl (fun ks p => ks.editSet (.queue p.queue) (·.insert p.member)) ks
  | .enqueueMembers queue members =>
    members.foldl (fun ks m => ks.editSet (.queue queue) (·.insert m)) ks
  | .unqueue places =>
    places.foldl (fun ks p => ks.editSet (.queue p.queue) (·.erase p.member.member)) ks
  | .dequeue queue count => ks.editSet (.queue queue) (·.dropFirst count)
  | .createHash hash fields => if fields = [] then ks else ks.editHash hash (·.setAll fields)
  | .updateHash hash fields =>
    fields.foldl (fun ks f => ks.editHash hash fun m =>
      if f.2 = "" then m.erase f.1 else m.insert f.1 f.2) ks
  | .deleteField hash field => ks.editHash hash (·.erase field)
  | .requireEmptyList _ => ks
  | .requireEmptyHash _ => ks
  | .requireField _ _ => ks
  | .requireNoField _ _ => ks
  | .requireFieldEqual _ _ _ => ks
  | .requireFieldNotEqual _ _ _ => ks

/-- What operations need of the store. -/
def allRequirements (operations : List Operation) : List Requirement :=
  operations.flatMap requirements

/-- What operations do to the store, in order. -/
def allEffects (ks : Keyspace) (operations : List Operation) : Keyspace :=
  operations.foldl effect ks

/-- Whether an operation can be staged: its entries have texts, and a dequeue is in
bounds. -/
def Stageable (settings : Settings) : Operation → Prop
  | .create entries => ∀ d ∈ entries, ∃ text, d.text = .ok text
  | .update entries => ∀ d ∈ entries, ∃ text, d.text = .ok text
  | .dequeue _ count => 0 < count ∧ count ≤ settings.maxDequeue
  | _ => True

end Operation

/-! ## Demands and commands -/

/-- A condition with what it is about. -/
structure Demand where
  /-- What the condition is about. -/
  concern : Concern
  /-- The label it is reported under. -/
  label : String
  /-- The condition. -/
  condition : Condition

namespace Demand

/-- What a registry keeps of a demand. -/
def attachment (d : Demand) : Attachment := ⟨d.label, d.concern, none⟩

/-- A demand asks what a requirement says. -/
structure Meets (d : Demand) (r : Requirement) : Prop where
  kind : d.concern.failure = r.kind
  label : d.label = r.label
  holds : ∀ ks : Keyspace, ks.holds d.condition = true ↔ r.Holds ks

/-- A key is absent. -/
def absent (key : Key) : Demand := ⟨.absence, key.text, .keyNotExists key⟩

/-- A key is there. -/
def present (key : Key) : Demand := ⟨.presence, key.text, .keyExists key⟩

/-- A key holds the text an entry was read from. -/
def unchanged (d : Draft) : Demand := ⟨.snapshot, "", .stringEqual d.key (d.previous.getD "")⟩

theorem absent_meets (key : Key) : (absent key).Meets (.absent key) := by
  refine ⟨rfl, rfl, fun ks => ?_⟩
  simp only [absent, Requirement.absent, Keyspace.holds, Keyspace.contains_eq]
  cases ks[key]? <;> simp

theorem present_meets (key : Key) : (present key).Meets (.present key) := by
  refine ⟨rfl, rfl, fun ks => ?_⟩
  simp only [present, Requirement.present, Keyspace.holds, Keyspace.contains_eq]
  exact Option.isSome_iff_ne_none

theorem unchanged_meets (d : Draft) : (unchanged d).Meets (.unchanged d) :=
  ⟨rfl, rfl, fun _ => decide_eq_true_iff⟩

theorem longEnough_meets (queue : String) {count : Nat} (positive : 0 < count) :
    Meets ⟨.queueLength, (Key.queue queue).text, .sortedSetLonger (.queue queue) (count - 1)⟩
      (.longEnough queue count) := by
  refine ⟨rfl, rfl, fun ks => ?_⟩
  simp only [Requirement.longEnough, Keyspace.holds, Keyspace.sortedSetSize?_eq]
  cases ks.sortedSetAt? (.queue queue) with
  | none => simp
  | some set =>
    simp only [Option.map_some, Option.any_some, decide_eq_true_eq, Option.some.injEq,
      exists_eq_left']
    omega

theorem emptyHash_meets (hash : Key) :
    Meets ⟨.absence, hash.text, .hashLengthEqual hash 0⟩ (.emptyHash hash) := by
  refine ⟨rfl, rfl, fun ks => ?_⟩
  simp only [Requirement.emptyHash, Keyspace.holds, Keyspace.hashLength?_eq, decide_eq_true_eq]
  cases ks.hashAt? hash with
  | none => simp
  | some fields =>
    simp only [Option.map_some, Option.some.injEq]
    exact Std.ExtTreeMap.eq_empty_iff_size_eq_zero.symm

theorem emptyList_meets (list : Key) :
    Meets ⟨.absence, list.text, .listLengthEqual list 0⟩ (.emptyList list) := by
  refine ⟨rfl, rfl, fun ks => ?_⟩
  simp only [Requirement.emptyList, Keyspace.holds, Keyspace.listLength?_eq, decide_eq_true_eq]
  cases ks.listAt? list <;> simp

theorem hasField_meets (hash : Key) (field : String) :
    Meets ⟨.presence, hash.fieldLabel field, .fieldExists hash field⟩ (.hasField hash field) := by
  refine ⟨rfl, rfl, fun ks => ?_⟩
  simp only [Requirement.hasField, Keyspace.holds, Keyspace.field?_eq]
  cases ks.hashAt? hash <;> simp

theorem lacksField_meets (hash : Key) (field : String) :
    Meets ⟨.absence, hash.fieldLabel field, .fieldNotExists hash field⟩
      (.lacksField hash field) := by
  refine ⟨rfl, rfl, fun ks => ?_⟩
  simp only [Requirement.lacksField, Keyspace.holds, Keyspace.field?_eq]
  cases ks.hashAt? hash <;> simp

theorem fieldIs_meets (hash : Key) (field value : String) :
    Meets ⟨.value, hash.fieldLabel field ++ " == " ++ value, .fieldEqual hash field value⟩
      (.fieldIs hash field value) := by
  refine ⟨rfl, rfl, fun ks => ?_⟩
  simp only [Requirement.fieldIs, Keyspace.holds, Keyspace.field?_eq, decide_eq_true_eq]
  cases ks.hashAt? hash <;> simp

theorem fieldIsNot_meets (hash : Key) (field value : String) :
    Meets ⟨.value, hash.fieldLabel field ++ " != " ++ value, .fieldNotEqual hash field value⟩
      (.fieldIsNot hash field value) := by
  refine ⟨rfl, rfl, fun ks => ?_⟩
  simp only [Requirement.fieldIsNot, Keyspace.holds, Keyspace.field?_eq, decide_eq_true_eq]
  cases ks.hashAt? hash <;> simp

end Demand

namespace Operation

/-- The demands of an operation. -/
def demands : Operation → List Demand
  | .create entries => entries.map fun d => .absent d.key
  | .update entries => entries.flatMap fun d => [.present d.key, .unchanged d]
  | .delete entries => entries.flatMap fun d => [.present d.key, .unchanged d]
  | .deleteKey key => [.present key]
  | .enqueue _ => []
  | .enqueueMembers _ _ => []
  | .unqueue _ => []
  | .dequeue queue count =>
    [⟨.queueLength, (Key.queue queue).text, .sortedSetLonger (.queue queue) (count - 1)⟩]
  | .createHash hash _ => [⟨.absence, hash.text, .hashLengthEqual hash 0⟩]
  | .updateHash _ _ => []
  | .deleteField hash field =>
    [.present hash, ⟨.presence, hash.fieldLabel field, .fieldExists hash field⟩]
  | .requireEmptyList list => [⟨.absence, list.text, .listLengthEqual list 0⟩]
  | .requireEmptyHash hash => [⟨.absence, hash.text, .hashLengthEqual hash 0⟩]
  | .requireField hash field => [⟨.presence, hash.fieldLabel field, .fieldExists hash field⟩]
  | .requireNoField hash field => [⟨.absence, hash.fieldLabel field, .fieldNotExists hash field⟩]
  | .requireFieldEqual hash field value =>
    [⟨.value, hash.fieldLabel field ++ " == " ++ value, .fieldEqual hash field value⟩]
  | .requireFieldNotEqual hash field value =>
    [⟨.value, hash.fieldLabel field ++ " != " ++ value, .fieldNotEqual hash field value⟩]

/-- The command that writes an entry. -/
def writeCommand (d : Draft) : List Command :=
  match d.text with
  | .ok text => [.setString d.key text]
  | .error _ => []

/-- The commands that write entries set the texts of their keys. -/
theorem mem_writeCommands {entries : List Draft} {command : Command}
    (h : command ∈ entries.flatMap writeCommand) :
    ∃ d ∈ entries, ∃ text, command = .setString d.key text := by
  obtain ⟨d, hd, h⟩ := List.mem_flatMap.1 h
  unfold writeCommand at h
  split at h
  · exact ⟨d, hd, _, List.mem_singleton.1 h⟩
  · exact absurd h List.not_mem_nil

/-- The commands of an operation. -/
def commands : Operation → List Command
  | .create entries => entries.flatMap writeCommand
  | .update entries => entries.flatMap writeCommand
  | .delete entries => entries.map fun d => .delete d.key
  | .deleteKey key => [.delete key]
  | .enqueue places => places.map fun p => .addMember (.queue p.queue) p.member
  | .enqueueMembers queue members => members.map (.addMember (.queue queue))
  | .unqueue places => places.map fun p => .removeMember (.queue p.queue) p.member.member
  | .dequeue queue count => [.popFirst (.queue queue) count]
  | .createHash hash fields => [.setFields hash fields]
  | .updateHash hash fields => fields.map (Transaction.fieldCommand hash)
  | .deleteField hash field => [.deleteField hash field]
  | _ => []

/-- The demands of operations in order. -/
def allDemands (operations : List Operation) : List Demand := operations.flatMap demands

/-- The commands of operations in order. -/
def allCommands (operations : List Operation) : List Command := operations.flatMap commands

end Operation

/-! ## Staging appends -/

namespace Transaction

/-- A transaction with more demands and commands behind its own. -/
def extend (tx : Transaction) (demands : List Demand) (commands : List Command) : Transaction :=
  { tx with
    registry := ⟨tx.registry.attachments ++ demands.map Demand.attachment,
      tx.registry.conditions ++ demands.map Demand.condition⟩
    commands := tx.commands ++ commands }

theorem extend_nil (tx : Transaction) : tx.extend [] [] = tx := by
  simp only [extend, List.map_nil, List.append_nil]

theorem extend_extend (tx : Transaction) (ds ds' : List Demand) (cs cs' : List Command) :
    (tx.extend ds cs).extend ds' cs' = tx.extend (ds ++ ds') (cs ++ cs') := by
  simp only [extend, List.map_append, List.append_assoc]

theorem require_eq (tx : Transaction) (concern : Concern) (label : String)
    (condition : Condition) :
    tx.require concern label condition = tx.extend [⟨concern, label, condition⟩] [] := by
  simp [require, Registry.attach, extend, Demand.attachment]

theorem writeAll_eq (tx : Transaction) (cs : List Command) : tx.writeAll cs = tx.extend [] cs := by
  simp only [writeAll, extend, List.map_nil, List.append_nil]

theorem write_eq (tx : Transaction) (c : Command) : tx.write c = tx.extend [] [c] :=
  tx.writeAll_eq [c]

/-- Staging entries one after the other appends what each of them appends. -/
theorem foldl_extend {α : Type} {f : Transaction → α → Transaction} {ds : α → List Demand}
    {cs : α → List Command} {xs : List α}
    (h : ∀ x ∈ xs, ∀ tx, f tx x = tx.extend (ds x) (cs x)) (tx : Transaction) :
    xs.foldl f tx = tx.extend (xs.flatMap ds) (xs.flatMap cs) := by
  induction xs generalizing tx with
  | nil => exact (extend_nil tx).symm
  | cons x xs ih =>
    rw [List.foldl_cons, h x List.mem_cons_self, ih fun y hy => h y (List.mem_cons_of_mem x hy),
      extend_extend, List.flatMap_cons, List.flatMap_cons]

/-- Needing an entry unchanged appends two demands. -/
theorem requireUnchanged_eq (tx : Transaction) (d : Draft) :
    tx.requireUnchanged d = tx.extend [.present d.key, .unchanged d] [] := by
  rw [requireUnchanged, require_eq, require_eq, extend_extend]
  rfl

/-- Staging an operation appends its demands and its commands. -/
theorem stage_eq {tx : Transaction} {op : Operation} (h : op.Stageable tx.settings) :
    tx.stage op = tx.extend op.demands op.commands := by
  cases op with
  | create entries =>
    have one : ∀ d ∈ entries, ∀ tx : Transaction,
        tx.createOne d = tx.extend [.absent d.key] (Operation.writeCommand d) := by
      intro d hd tx
      obtain ⟨text, ht⟩ := h d hd
      simp only [createOne, Operation.writeCommand, ht]
      rw [write_eq, require_eq, extend_extend]
      rfl
    have all := foldl_extend one tx
    rw [← List.map_eq_flatMap] at all
    exact all
  | update entries =>
    have one : ∀ d ∈ entries, ∀ tx : Transaction,
        tx.updateOne d = tx.extend [.present d.key, .unchanged d] (Operation.writeCommand d) := by
      intro d hd tx
      obtain ⟨text, ht⟩ := h d hd
      simp only [updateOne, Operation.writeCommand, ht]
      rw [write_eq, requireUnchanged_eq, extend_extend]
      rfl
    exact foldl_extend one tx
  | delete entries =>
    have one : ∀ d ∈ entries, ∀ tx : Transaction,
        tx.deleteOne d = tx.extend [.present d.key, .unchanged d] [.delete d.key] := by
      intro d _ tx
      rw [deleteOne, write_eq, requireUnchanged_eq, extend_extend]
      rfl
    have all := foldl_extend one tx
    rw [← List.map_eq_flatMap (f := fun d : Draft => Command.delete d.key)] at all
    exact all
  | deleteKey key =>
    rw [stage, write_eq, require_eq, extend_extend]
    rfl
  | enqueue places => exact writeAll_eq tx _
  | enqueueMembers queue members => exact writeAll_eq tx _
  | unqueue places => exact writeAll_eq tx _
  | dequeue queue count =>
    have bounds : 0 < count ∧ count ≤ tx.settings.maxDequeue := h
    rw [stage, if_pos bounds]
    dsimp only
    rw [write_eq, require_eq, extend_extend]
    rfl
  | createHash hash fields =>
    rw [stage, write_eq, require_eq, extend_extend]
    rfl
  | updateHash hash fields => exact writeAll_eq tx _
  | deleteField hash field =>
    rw [stage, write_eq, require_eq, require_eq, extend_extend,
      extend_extend]
    rfl
  | requireEmptyList list => exact require_eq tx _ _ _
  | requireEmptyHash hash => exact require_eq tx _ _ _
  | requireField hash field => exact require_eq tx _ _ _
  | requireNoField hash field => exact require_eq tx _ _ _
  | requireFieldEqual hash field value => exact require_eq tx _ _ _
  | requireFieldNotEqual hash field value => exact require_eq tx _ _ _

/-! ## Errors stay -/

/-- Staging entries leaves no error behind only if each of them leaves none. -/
theorem deferred_foldl {α : Type} {f : Transaction → α → Transaction} {P : α → Prop}
    (h : ∀ tx x, (f tx x).deferred = none → P x ∧ tx.deferred = none) {xs : List α}
    {tx : Transaction} (clean : (xs.foldl f tx).deferred = none) :
    (∀ x ∈ xs, P x) ∧ tx.deferred = none := by
  induction xs generalizing tx with
  | nil => exact ⟨fun _ hx => absurd hx List.not_mem_nil, clean⟩
  | cons x xs ih =>
    obtain ⟨rest, here⟩ := ih clean
    obtain ⟨first, before⟩ := h tx x here
    exact ⟨List.forall_mem_cons.2 ⟨first, rest⟩, before⟩

theorem deferred_fail (tx : Transaction) (e : StoreError) : (tx.fail e).deferred ≠ none := by
  unfold fail
  cases tx.deferred <;> simp

/-- An operation that leaves no error behind could be staged, and there was no error
before it. -/
theorem stageable_of_stage {tx : Transaction} {op : Operation} (h : (tx.stage op).deferred = none) :
    op.Stageable tx.settings ∧ tx.deferred = none := by
  cases op with
  | create entries =>
    refine deferred_foldl (fun tx d clean => ?_) h
    cases ht : d.text with
    | ok text =>
      rw [createOne, ht] at clean
      exact ⟨⟨text, rfl⟩, clean⟩
    | error e =>
      rw [createOne, ht] at clean
      exact absurd clean (tx.deferred_fail e)
  | update entries =>
    refine deferred_foldl (fun tx d clean => ?_) h
    cases ht : d.text with
    | ok text =>
      rw [updateOne, ht] at clean
      exact ⟨⟨text, rfl⟩, clean⟩
    | error e =>
      rw [updateOne, ht] at clean
      exact absurd clean (tx.deferred_fail e)
  | delete entries =>
    have one (tx : Transaction) (d : Draft) (clean : (tx.deleteOne d).deferred = none) :
        True ∧ tx.deferred = none := ⟨trivial, clean⟩
    exact ⟨trivial, (deferred_foldl one h).2⟩
  | dequeue queue count =>
    by_cases bounds : 0 < count ∧ count ≤ tx.settings.maxDequeue
    · rw [stage, if_pos bounds] at h
      exact ⟨bounds, h⟩
    · rw [stage, if_neg bounds] at h
      exact absurd h (tx.deferred_fail _)
  | _ => exact ⟨trivial, h⟩

/-- Operations leave no error behind exactly if each of them can be staged. -/
theorem deferred_stageAll {tx : Transaction} {ops : List Operation} :
    (tx.stageAll ops).deferred = none ↔
      (∀ op ∈ ops, op.Stageable tx.settings) ∧ tx.deferred = none := by
  induction ops generalizing tx with
  | nil => simp [stageAll]
  | cons op ops ih =>
    change ((tx.stage op).stageAll ops).deferred = none ↔ _
    rw [ih, List.forall_mem_cons]
    constructor
    · rintro ⟨rest, here⟩
      obtain ⟨first, before⟩ := stageable_of_stage here
      rw [stage_eq first] at rest
      exact ⟨⟨first, rest⟩, before⟩
    · rintro ⟨⟨first, rest⟩, before⟩
      rw [stage_eq first]
      exact ⟨rest, before⟩

/-- Staging operations appends their demands and their commands. -/
theorem stageAll_eq (tx : Transaction) {ops : List Operation}
    (h : ∀ op ∈ ops, op.Stageable tx.settings) :
    tx.stageAll ops = tx.extend (Operation.allDemands ops) (Operation.allCommands ops) := by
  induction ops generalizing tx with
  | nil => exact tx.extend_nil.symm
  | cons op ops ih =>
    obtain ⟨first, rest⟩ := List.forall_mem_cons.1 h
    change (tx.stage op).stageAll ops = _
    rw [stage_eq first]
    exact (ih (tx.extend op.demands op.commands) rest).trans (tx.extend_extend _ _ _ _)

end Transaction

/-! ## The table -/

namespace Operation

private theorem forall₂_map {α : Type} {R : Demand → Requirement → Prop} {f : α → Demand}
    {g : α → Requirement} (h : ∀ x, R (f x) (g x)) (xs : List α) :
    List.Forall₂ R (xs.map f) (xs.map g) := by
  rw [List.forall₂_map_left_iff, List.forall₂_map_right_iff]
  exact List.forall₂_same.2 fun x _ => h x

theorem unchanged_meet (entries : List Draft) :
    List.Forall₂ Demand.Meets (entries.flatMap fun d => [.present d.key, .unchanged d])
      (entries.flatMap fun d => [.present d.key, .unchanged d]) := by
  induction entries with
  | nil => exact .nil
  | cons d entries ih => exact .cons (Demand.present_meets d.key) (.cons (Demand.unchanged_meets d) ih)

/-- The demands of an operation agree with its requirements. -/
theorem demands_meet {settings : Settings} {op : Operation} (h : op.Stageable settings) :
    List.Forall₂ Demand.Meets op.demands op.requirements := by
  cases op with
  | create entries => exact forall₂_map (fun d => Demand.absent_meets d.key) entries
  | update entries => exact unchanged_meet entries
  | delete entries => exact unchanged_meet entries
  | deleteKey key => exact .cons (Demand.present_meets key) .nil
  | enqueue places => exact .nil
  | enqueueMembers queue members => exact .nil
  | unqueue places => exact .nil
  | dequeue queue count => exact .cons (Demand.longEnough_meets queue h.1) .nil
  | createHash hash fields => exact .cons (Demand.emptyHash_meets hash) .nil
  | updateHash hash fields => exact .nil
  | deleteField hash field =>
    exact .cons (Demand.present_meets hash) (.cons (Demand.hasField_meets hash field) .nil)
  | requireEmptyList list => exact .cons (Demand.emptyList_meets list) .nil
  | requireEmptyHash hash => exact .cons (Demand.emptyHash_meets hash) .nil
  | requireField hash field => exact .cons (Demand.hasField_meets hash field) .nil
  | requireNoField hash field => exact .cons (Demand.lacksField_meets hash field) .nil
  | requireFieldEqual hash field value => exact .cons (Demand.fieldIs_meets hash field value) .nil
  | requireFieldNotEqual hash field value =>
    exact .cons (Demand.fieldIsNot_meets hash field value) .nil

/-- The demands of operations agree with their requirements. -/
theorem allDemands_meet {settings : Settings} {ops : List Operation}
    (h : ∀ op ∈ ops, op.Stageable settings) :
    List.Forall₂ Demand.Meets (allDemands ops) (allRequirements ops) := by
  induction ops with
  | nil => exact .nil
  | cons op ops ih =>
    obtain ⟨first, rest⟩ := List.forall_mem_cons.1 h
    exact List.rel_append (demands_meet first) (ih rest)

/-- The commands that write entries leave the entries' texts. -/
theorem editAll_writeCommands {ks : Keyspace} {entries : List Draft} :
    ks.editAll (entries.flatMap writeCommand) = entries.foldl Draft.write ks := by
  induction entries generalizing ks with
  | nil => rfl
  | cons d entries ih =>
    rw [List.flatMap_cons, Keyspace.editAll_append, ih, List.foldl_cons]
    congr 1
    rw [writeCommand, Draft.write]
    cases d.text <;> rfl

theorem editAll_map {α : Type} (f : α → Command) (xs : List α) (ks : Keyspace) :
    ks.editAll (xs.map f) = xs.foldl (fun ks x => ks.edit (f x)) ks :=
  List.foldl_map

/-- The command of a field sets it, or removes it if the text is empty. -/
theorem edit_fieldCommand (ks : Keyspace) (hash : Key) (field : String × String) :
    ks.edit (Transaction.fieldCommand hash field) =
      ks.editHash hash fun m =>
        if field.2 = "" then m.erase field.1 else m.insert field.1 field.2 := by
  rw [Transaction.fieldCommand]
  by_cases h : field.2 = ""
  · rw [if_pos (String.isEmpty_iff.2 h)]
    simp only [h, if_true]
    rfl
  · rw [if_neg (mt String.isEmpty_iff.1 h)]
    simp only [h, if_false]
    rfl

/-- The commands of an operation make its effect. -/
theorem editAll_commands (op : Operation) (ks : Keyspace) :
    ks.editAll op.commands = op.effect ks := by
  cases op with
  | create entries => exact editAll_writeCommands
  | update entries => exact editAll_writeCommands
  | delete entries => exact editAll_map _ entries ks
  | enqueue places => exact editAll_map _ places ks
  | enqueueMembers queue members => exact editAll_map _ members ks
  | unqueue places => exact editAll_map _ places ks
  | createHash hash fields =>
    cases fields with
    | nil => rfl
    | cons field fields =>
      rw [effect, if_neg (List.cons_ne_nil field fields)]
      rfl
  | updateHash hash fields =>
    rw [commands, editAll_map, effect]
    simp only [edit_fieldCommand]
  | _ => rfl

/-- The commands of operations make their effects. -/
theorem editAll_allCommands (ops : List Operation) (ks : Keyspace) :
    ks.editAll (allCommands ops) = allEffects ks ops := by
  induction ops generalizing ks with
  | nil => rfl
  | cons op ops ih =>
    rw [allCommands, List.flatMap_cons, Keyspace.editAll_append, editAll_commands]
    exact ih _

end Operation

end Matchmaking
