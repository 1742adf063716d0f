import Matchmaking.Client
import Matchmaking.Proofs.Keys
import Matchmaking.Proofs.Operations
import Matchmaking.Proofs.Records

/-!
# What a store holds

The gateway sees a store as records by their ids (`Keyspace.record?`).  This module
says what the operations of a transaction do to them: an operation touches the
records whose keys it writes (`Operation.keys`), and entries that pass the check of
an update are the ones that are stored.
-/

namespace Matchmaking

namespace Keyspace

/-! ## Records by their ids -/

/-- The entry stored under an id, if there is a text that describes one. -/
def entry? (α : Type) [Record α] (ks : Keyspace) (id : String) : Option (Entry α) :=
  match ks[Key.entry α id]? with
  | some (.string text) => (Entry.deserialize text).toOption
  | _ => none

/-- The record stored under an id. -/
def record? (α : Type) [Record α] (ks : Keyspace) (id : String) : Option α :=
  (ks.entry? α id).map Entry.record

section

variable {α β : Type} [Record α] [Record β] {ks ks' : Keyspace} {id : String}

theorem record?_congr (h : ks'[Key.entry α id]? = ks[Key.entry α id]?) :
    ks'.record? α id = ks.record? α id := by
  rw [record?, entry?, h]
  rfl

theorem record?_of_absent (h : ks[Key.entry α id]? = none) : ks.record? α id = none := by
  rw [record?, entry?, h]
  rfl

theorem record?_of_text {text : String} {e : Entry α}
    (h : ks[Key.entry α id]? = some (.string text)) (read : Entry.deserialize text = .ok e) :
    ks.record? α id = some e.record := by
  rw [record?, entry?, h]
  dsimp only
  rw [read]
  rfl

end

end Keyspace

/-- An entry carries the text it was read from. -/
theorem Entry.previous_eq {α : Type} [Record α] {e : Entry α} {text : String}
    (read : (deserialize text : Except StoreError (Entry α)) = .ok e) : e.previous = some text := by
  unfold deserialize at read
  split at read
  · injection read with read
    rw [← read]
  · contradiction

/-- An entry was read from a store under an id. -/
structure Entry.Loaded {α : Type} [Record α] (e : Entry α) (id : String) : Prop where
  /-- The record carries the id. -/
  id : e.id = id
  /-- The entry is what its text describes. -/
  text : ∃ text, e.previous = some text ∧ (deserialize text : Except StoreError (Entry α)) = .ok e

namespace Keyspace

variable {α : Type} [Record α] {ks : Keyspace} {id : String} {e : Entry α}

theorem record?_of_entry? (h : ks.entry? α id = some e) : ks.record? α id = some e.record := by
  rw [record?, h]
  rfl

/-- A stored entry is what the text at its key describes. -/
theorem text_of_entry? (h : ks.entry? α id = some e) : ∃ text,
    ks[Key.entry α id]? = some (.string text) ∧
      (Entry.deserialize text : Except StoreError (Entry α)) = .ok e := by
  unfold entry? at h
  split at h
  next text stored =>
    cases read : (Entry.deserialize text : Except StoreError (Entry α)) with
    | error fault =>
      rw [read] at h
      contradiction
    | ok e' =>
      rw [read] at h
      obtain rfl : e' = e := Option.some.inj h
      exact ⟨text, stored, read⟩
  next => contradiction

/-- A stored entry under its own id is loaded by reading it. -/
theorem loaded_of_entry? (h : ks.entry? α id = some e) (own : e.id = id) : e.Loaded id := by
  obtain ⟨text, -, read⟩ := text_of_entry? h
  exact ⟨own, text, Entry.previous_eq read, read⟩

/-- The answer to reading an id. -/
def get (α : Type) [Record α] (ks : Keyspace) (id : String) :
    Except StoreError (Option (Entry α)) :=
  match ks.string (.entry α id) with
  | .ok text => Client.entryOfText text
  | .error e => .error e

theorem deserialize_empty :
    (Entry.deserialize "" : Except StoreError (Entry α)).toOption = none := by
  have unreadable : Json.parse "" = none := by
    decide +kernel
  rw [Entry.deserialize, unreadable]
  rfl

/-- A text that describes an entry is read as that entry. -/
theorem entryOfText_eq {text : String} (read : Entry.deserialize text = .ok e) :
    Client.entryOfText (some text) = .ok (some e) := by
  have nonempty : text.isEmpty = false := by
    rw [← Bool.not_eq_true, String.isEmpty_iff]
    rintro rfl
    have := deserialize_empty (α := α)
    rw [read] at this
    contradiction
  rw [Client.entryOfText, nonempty, read]
  rfl

/-- A stored text that describes an entry is found. -/
theorem get_of_text {text : String} (stored : ks[Key.entry α id]? = some (.string text))
    (read : Entry.deserialize text = .ok e) : ks.get α id = .ok (some e) := by
  rw [get, string, stored]
  exact entryOfText_eq read

/-- Reading an id finds what is stored under it. -/
theorem get_eq_ok {found : Option (Entry α)} (h : ks.get α id = .ok found) :
    ks.entry? α id = found := by
  unfold get string at h
  unfold entry?
  cases stored : ks[Key.entry α id]? with
  | none =>
    rw [stored] at h
    injection h
  | some v =>
    rw [stored] at h
    cases v with
    | string text =>
      dsimp only [Client.entryOfText] at h ⊢
      split at h
      next empty =>
        obtain rfl : text = "" := String.isEmpty_iff.1 empty
        rw [deserialize_empty]
        injection h
      next =>
        cases read : (Entry.deserialize text : Except StoreError (Entry α)) with
        | error fault =>
          rw [read] at h
          contradiction
        | ok e =>
          rw [read] at h
          injection h with h
    | _ => contradiction

end Keyspace

/-! ## Keys that operations write -/

namespace Operation

/-- The keys that an operation writes. -/
def keys : Operation → List Key
  | .create entries => entries.map Draft.key
  | .update entries => entries.map Draft.key
  | .delete entries => entries.map Draft.key
  | .deleteKey key => [key]
  | .enqueue places => places.map fun p => .queue p.queue
  | .enqueueMembers queue _ => [.queue queue]
  | .unqueue places => places.map fun p => .queue p.queue
  | .dequeue queue _ => [.queue queue]
  | .createHash hash _ => [hash]
  | .updateHash hash _ => [hash]
  | .deleteField hash _ => [hash]
  | _ => []

theorem getElem?_foldl {α : Type} {f : Keyspace → α → Keyspace} {key : Key} {xs : List α}
    (h : ∀ ks, ∀ x ∈ xs, (f ks x)[key]? = ks[key]?) (ks : Keyspace) :
    (xs.foldl f ks)[key]? = ks[key]? := by
  induction xs generalizing ks with
  | nil => rfl
  | cons x xs ih =>
    rw [List.foldl_cons, ih fun ks y hy => h ks y (List.mem_cons_of_mem x hy),
      h ks x List.mem_cons_self]

theorem getElem?_write {d : Draft} {key : Key} (h : d.key ≠ key) (ks : Keyspace) :
    (d.write ks)[key]? = ks[key]? := by
  unfold Draft.write
  split
  · simp [h]
  · rfl

/-- An operation leaves the keys alone that it does not write. -/
theorem getElem?_effect {op : Operation} {key : Key} (h : key ∉ op.keys) (ks : Keyspace) :
    (op.effect ks)[key]? = ks[key]? := by
  have other {α : Type} {f : α → Key} {xs : List α} (h : key ∉ xs.map f) {x : α} (hx : x ∈ xs) :
      f x ≠ key := fun same => h (same ▸ List.mem_map_of_mem hx)
  have single {k : Key} (h : key ∉ [k]) : k ≠ key := fun same => h (List.mem_singleton.2 same.symm)
  cases op with
  | create entries => exact getElem?_foldl (fun ks d hd => getElem?_write (other h hd) ks) ks
  | update entries => exact getElem?_foldl (fun ks d hd => getElem?_write (other h hd) ks) ks
  | delete entries =>
    refine getElem?_foldl (fun ks d hd => ?_) ks
    exact (Keyspace.getElem?_erase ks d.key key).trans (if_neg (other h hd))
  | deleteKey k => exact (Keyspace.getElem?_erase ks k key).trans (if_neg (single h))
  | enqueue places =>
    exact getElem?_foldl (fun ks p hp => Keyspace.getElem?_editSet_of_ne (other h hp)) ks
  | enqueueMembers queue members =>
    exact getElem?_foldl (fun ks m _ => Keyspace.getElem?_editSet_of_ne (single h)) ks
  | unqueue places =>
    exact getElem?_foldl (fun ks p hp => Keyspace.getElem?_editSet_of_ne (other h hp)) ks
  | dequeue queue count => exact Keyspace.getElem?_editSet_of_ne (single h)
  | createHash hash fields =>
    rw [effect]
    split
    · rfl
    · exact Keyspace.getElem?_editHash_of_ne (single h)
  | updateHash hash fields =>
    exact getElem?_foldl (fun ks f _ => Keyspace.getElem?_editHash_of_ne (single h)) ks
  | deleteField hash field => exact Keyspace.getElem?_editHash_of_ne (single h)
  | _ => rfl

/-- Operations leave the keys alone that none of them writes. -/
theorem getElem?_allEffects_of_not_mem {ops : List Operation} {key : Key}
    (apart : ∀ op ∈ ops, key ∉ op.keys) (ks : Keyspace) : (allEffects ks ops)[key]? = ks[key]? :=
  getElem?_foldl (fun ks op hop => getElem?_effect (apart op hop) ks) ks

/-- The commands of an operation address the keys that it writes. -/
theorem key_mem_keys {op : Operation} {command : Command} (h : command ∈ op.commands) :
    command.key ∈ op.keys := by
  cases op with
  | create _ | update _ =>
    obtain ⟨d, hd, text, rfl⟩ := mem_writeCommands h
    exact List.mem_map_of_mem hd
  | delete entries =>
    obtain ⟨d, hd, rfl⟩ := List.mem_map.1 h
    exact List.mem_map_of_mem hd
  | enqueue places | unqueue places =>
    obtain ⟨p, hp, rfl⟩ := List.mem_map.1 h
    exact List.mem_map_of_mem (f := fun p : QueuePlace => Key.queue p.queue) hp
  | enqueueMembers queue members =>
    obtain ⟨m, _, rfl⟩ := List.mem_map.1 h
    exact List.mem_cons_self
  | updateHash hash fields =>
    obtain ⟨field, _, rfl⟩ := List.mem_map.1 h
    unfold Transaction.fieldCommand
    split <;> exact List.mem_cons_self
  | deleteKey _ | dequeue _ _ | createHash _ _ | deleteField _ _ =>
    obtain rfl := List.mem_singleton.1 h
    exact List.mem_cons_self
  | _ => exact absurd h List.not_mem_nil

/-- Commands of operations that do not write a key address other keys. -/
theorem key_ne_of_mem {ops : List Operation} {key : Key} (apart : ∀ op ∈ ops, key ∉ op.keys)
    {command : Command} (h : command ∈ allCommands ops) : command.key ≠ key := by
  obtain ⟨op, hop, h⟩ := List.mem_flatMap.1 h
  rintro rfl
  exact apart op hop (key_mem_keys h)

/-- An operation writes no key of a namespace. -/
def Spares (space : String) (op : Operation) : Prop := ∀ id, Key.compose space id ∉ op.keys

/-- The drafts are those of records of a type. -/
def DraftsOf (α : Type) [Record α] (ds : List Draft) : Prop := ∀ d ∈ ds, ∃ id, d.key = .entry α id

theorem draftsOf_map {α ι : Type} [Record α] (f : ι → Entry α) (xs : List ι) :
    DraftsOf α (xs.map fun x => (f x).draft) := by
  intro d hd
  obtain ⟨x, _, rfl⟩ := List.mem_map.1 hd
  exact ⟨_, rfl⟩

theorem draftsOf_singleton {α : Type} [Record α] (e : Entry α) : DraftsOf α [e.draft] :=
  draftsOf_map id [e]

section

variable {α : Type} [Record α] {ds : List Draft} {space : String}

theorem DraftsOf.not_mem (h : DraftsOf α ds) (apart : Key.Apart (Record.kind α) space)
    (id : String) : Key.compose space id ∉ ds.map Draft.key := by
  intro mem
  obtain ⟨d, hd, same⟩ := List.mem_map.1 mem
  obtain ⟨x, key⟩ := h d hd
  exact Key.compose_ne apart x id (key.symm.trans same)

theorem DraftsOf.spares_create (h : DraftsOf α ds)
    (apart : Key.Apart (Record.kind α) space := by decide) :
    (create ds).Spares space := h.not_mem apart

theorem DraftsOf.spares_update (h : DraftsOf α ds)
    (apart : Key.Apart (Record.kind α) space := by decide) :
    (update ds).Spares space := h.not_mem apart

theorem DraftsOf.spares_delete (h : DraftsOf α ds)
    (apart : Key.Apart (Record.kind α) space := by decide) :
    (delete ds).Spares space := h.not_mem apart

theorem spares_enqueue (places : List QueuePlace)
    (apart : Key.Apart space Key.queueNamespace := by decide) :
    (enqueue places).Spares space := by
  intro id mem
  obtain ⟨p, _, same⟩ := List.mem_map.1 mem
  exact Key.compose_ne apart id p.queue same.symm

theorem spares_enqueueMembers (queue : String) (members : List ScoredMember)
    (apart : Key.Apart space Key.queueNamespace := by decide) :
    (enqueueMembers queue members).Spares space :=
  fun id mem => Key.compose_ne apart id queue (List.mem_singleton.1 mem)

theorem spares_dequeue (queue : String) (count : Nat)
    (apart : Key.Apart space Key.queueNamespace := by decide) :
    (dequeue queue count).Spares space :=
  fun id mem => Key.compose_ne apart id queue (List.mem_singleton.1 mem)

/-- Operations leave a namespace alone that none of them writes. -/
theorem getElem?_allEffects {ops : List Operation} (h : ∀ op ∈ ops, op.Spares space)
    (ks : Keyspace) (id : String) :
    (allEffects ks ops)[Key.compose space id]? = ks[Key.compose space id]? :=
  getElem?_allEffects_of_not_mem (fun op hop => h op hop id) ks

theorem record?_allEffects {ops : List Operation} (h : ∀ op ∈ ops, op.Spares (Record.kind α))
    (ks : Keyspace) (id : String) : (allEffects ks ops).record? α id = ks.record? α id :=
  Keyspace.record?_congr (getElem?_allEffects h ks id)

end

end Operation

theorem allEffects_append (ks : Keyspace) (ops ops' : List Operation) :
    Operation.allEffects ks (ops ++ ops') =
      Operation.allEffects (Operation.allEffects ks ops) ops' :=
  List.foldl_append

/-- Only the operations up to the last one that writes records of a type decide about
them. -/
theorem Operation.record?_among {α : Type} [Record α] (before : List Operation) {op : Operation}
    {after : List Operation} (spared : ∀ op ∈ after, op.Spares (Record.kind α)) (ks : Keyspace)
    (id : String) : (allEffects ks (before ++ op :: after)).record? α id =
      (op.effect (allEffects ks before)).record? α id := by
  rw [allEffects_append]
  exact record?_allEffects spared _ id

/-! ## Stored texts that describe records -/

namespace Keyspace

/-- Whatever is stored under an id describes a record. -/
def Legible (α : Type) [Record α] (ks : Keyspace) : Prop :=
  ∀ id, ks.record? α id = none → ks[Key.entry α id]? = none

variable {α : Type} [Record α] {ks ks' : Keyspace}

theorem legible_empty : Legible α ∅ := fun _ _ => Std.ExtTreeMap.getElem?_empty

/-- In a legible keyspace a key is stored exactly if its record is. -/
theorem Legible.mem_iff (h : ks.Legible α) {id : String} :
    Key.entry α id ∈ ks ↔ ∃ a, ks.record? α id = some a := by
  rw [Std.ExtTreeMap.mem_iff_isSome_getElem?, Option.isSome_iff_ne_none]
  constructor
  · exact fun stored => Option.ne_none_iff_exists'.1 fun absent => stored (h id absent)
  · rintro ⟨a, stored⟩ absent
    rw [record?_of_absent absent] at stored
    contradiction

theorem Legible.congr (h : ks.Legible α)
    (same : ∀ id, ks'[Key.entry α id]? = ks[Key.entry α id]?) : ks'.Legible α :=
  fun id absent => (same id).trans (h id ((record?_congr (same id)).symm.trans absent))

theorem Legible.allEffects (h : ks.Legible α) {ops : List Operation}
    (spared : ∀ op ∈ ops, op.Spares (Record.kind α)) : (Operation.allEffects ks ops).Legible α :=
  h.congr (Operation.getElem?_allEffects spared ks)

/-- Of operations only one of which writes records of a type, that one decides. -/
theorem Legible.among (h : ks.Legible α) {op : Operation}
    (kept : ∀ ks : Keyspace, ks.Legible α → (op.effect ks).Legible α) (before after : List Operation)
    (spared : ∀ op ∈ before ++ after, op.Spares (Record.kind α)) :
    (Operation.allEffects ks (before ++ op :: after)).Legible α := by
  obtain ⟨first, rest⟩ := List.forall_mem_append.1 spared
  rw [allEffects_append]
  exact (kept _ (h.allEffects first)).allEffects rest

theorem Legible.erase (h : ks.Legible α) (id : String) : Legible α (ks.erase (.entry α id)) := by
  intro y absent
  by_cases same : id = y
  · simp [same]
  · have kept : (ks.erase (.entry α id))[Key.entry α y]? = ks[Key.entry α y]? := by simp [same]
    exact kept.trans (h y ((record?_congr kept).symm.trans absent))

end Keyspace

/-! ## Requirements one operation at a time -/

namespace Operation

variable {ks : Keyspace} {op : Operation} {ops : List Operation} {ds : List Draft}

theorem holds_cons (h : ∀ r ∈ allRequirements (op :: ops), r.Holds ks) :
    (∀ r ∈ op.requirements, r.Holds ks) ∧ ∀ r ∈ allRequirements ops, r.Holds ks :=
  List.forall_mem_append.1 h

theorem holds_create (h : ∀ r ∈ (create ds).requirements, r.Holds ks) :
    ∀ d ∈ ds, ks[d.key]? = none :=
  fun d hd => h (.absent d.key) (List.mem_map_of_mem hd)

theorem holds_update (h : ∀ r ∈ (update ds).requirements, r.Holds ks) :
    ∀ d ∈ ds, (Requirement.unchanged d).Holds ks :=
  fun d hd => h (.unchanged d) (List.mem_flatMap.2 ⟨d, hd, by simp⟩)

theorem holds_delete (h : ∀ r ∈ (delete ds).requirements, r.Holds ks) :
    ∀ d ∈ ds, (Requirement.unchanged d).Holds ks :=
  holds_update h

end Operation

/-! ## Drafts of records -/

section

variable {α β : Type} [Record α] [Record β]

/-- A draft writes a record under an id. -/
structure Draft.Writes (d : Draft) (id : String) (a : α) : Prop where
  key : d.key = .entry α id
  text : ∃ text e, d.text = .ok text ∧
    (Entry.deserialize text : Except StoreError (Entry α)) = .ok e ∧ e.record = a

theorem Entry.draft_writes {e : Entry α} (h : Readable e.record) :
    e.draft.Writes e.id e.record := by
  obtain ⟨text, written, _, read⟩ := Entry.deserialize_serialize h
  exact ⟨rfl, text, _, written, read, rfl⟩

theorem Entry.draft_text {e : Entry α} (h : Readable e.record) :
    ∃ text, e.draft.text = .ok text := by
  obtain ⟨text, written, _⟩ := Entry.deserialize_serialize h
  exact ⟨text, written⟩

/-- Writing a record replaces what is stored under its id. -/
theorem Draft.Writes.record? {d : Draft} {id : String} {a : α} (h : d.Writes id a) (ks : Keyspace)
    (y : String) : (d.write ks).record? α y = if y = id then some a else ks.record? α y := by
  obtain ⟨text, e, written, read, same⟩ := h.text
  rw [Draft.write, written, h.key]
  dsimp only
  split
  next here =>
    subst here
    have there : (ks.insert (.entry α y) (.string text))[Key.entry α y]? = some (.string text) := by
      simp
    rw [Keyspace.record?_of_text there read, same]
  next other => exact Keyspace.record?_congr (by simp [Ne.symm other])

/-- Of operations only one of which writes records of a type, that one decides. -/
theorem Draft.Writes.record?_among {d : Draft} {id : String} {a : α} (h : d.Writes id a)
    {op : Operation} (effect : ∀ ks, op.effect ks = d.write ks) (before after : List Operation)
    (spared : ∀ op ∈ before ++ after, op.Spares (Record.kind α)) (ks : Keyspace) (y : String) :
    (Operation.allEffects ks (before ++ op :: after)).record? α y =
      if y = id then some a else ks.record? α y := by
  obtain ⟨first, rest⟩ := List.forall_mem_append.1 spared
  rw [Operation.record?_among before rest, effect, ← Operation.record?_allEffects first ks y]
  exact h.record? _ y

theorem Draft.Writes.legible {d : Draft} {id : String} {a : α} (h : d.Writes id a) {ks : Keyspace}
    (legible : ks.Legible α) : (d.write ks).Legible α := by
  intro y absent
  rw [h.record?] at absent
  split at absent
  next => contradiction
  next other =>
    refine (Operation.getElem?_write ?_ ks).trans (legible y absent)
    rw [h.key, ne_eq, Key.entry_inj]
    exact Ne.symm other

/-- Writing a record leaves records of other types alone. -/
theorem Draft.Writes.record?_other {d : Draft} {id : String} {a : α} (h : d.Writes id a)
    (ks : Keyspace) (y : String) (apart : Key.Apart (Record.kind α) (Record.kind β) := by decide) :
    (d.write ks).record? β y = ks.record? β y := by
  refine Keyspace.record?_congr (Operation.getElem?_write ?_ ks)
  rw [h.key]
  exact Key.compose_ne apart id y

theorem Keyspace.record?_erase_other (ks : Keyspace) (id y : String)
    (apart : Key.Apart (Record.kind α) (Record.kind β) := by decide) :
    record? β (ks.erase (.entry α id)) y = ks.record? β y := by
  have other : Key.entry α id ≠ Key.entry β y := Key.compose_ne apart id y
  exact record?_congr (by simp [other])

theorem Keyspace.record?_erase (ks : Keyspace) (id y : String) :
    record? α (ks.erase (.entry α id)) y = if y = id then none else ks.record? α y := by
  split
  next here =>
    subst here
    exact record?_of_absent (by simp)
  next other => exact record?_congr (by simp [Ne.symm other])

/-- A draft of an entry's text passes the check of an update only if the entry is
still stored. -/
theorem Entry.Loaded.unchanged {e : Entry α} {id : String} (loaded : e.Loaded id) {d : Draft}
    (key : d.key = .entry α id) (previous : d.previous = e.previous) {ks : Keyspace}
    (h : (Requirement.unchanged d).Holds ks) : ks.record? α id = some e.record := by
  obtain ⟨text, same, read⟩ := loaded.text
  change ks[d.key]? = _ at h
  rw [key, previous, same] at h
  exact Keyspace.record?_of_text h read

/-! ## Lists of records -/

namespace Keyspace

variable {es : List (Entry α)}

/-- Writing entries leaves other ids alone. -/
theorem record?_writeAll_other (readable : ∀ e ∈ es, Readable e.record) {y : String}
    (other : ∀ e ∈ es, e.id ≠ y) (ks : Keyspace) :
    record? α ((es.map Entry.draft).foldl Draft.write ks) y = ks.record? α y := by
  induction es generalizing ks with
  | nil => rfl
  | cons e es ih =>
    obtain ⟨first, rest⟩ := List.forall_mem_cons.1 readable
    obtain ⟨here, there⟩ := List.forall_mem_cons.1 other
    rw [List.map_cons, List.foldl_cons, ih rest there, (Entry.draft_writes first).record?,
      if_neg (Ne.symm here)]

/-- Writing entries leaves each of them under its id, if no two of them contradict
each other. -/
theorem record?_writeAll_mem (readable : ∀ e ∈ es, Readable e.record) {e : Entry α} (he : e ∈ es)
    (agree : ∀ e' ∈ es, e'.id = e.id → e'.record = e.record) (ks : Keyspace) :
    record? α ((es.map Entry.draft).foldl Draft.write ks) e.id = some e.record := by
  induction es generalizing ks e with
  | nil => exact absurd he List.not_mem_nil
  | cons e₀ es ih =>
    obtain ⟨first, rest⟩ := List.forall_mem_cons.1 readable
    obtain ⟨here, there⟩ := List.forall_mem_cons.1 agree
    rw [List.map_cons, List.foldl_cons]
    by_cases again : ∃ e' ∈ es, e'.id = e.id
    · obtain ⟨e', he', same⟩ := again
      have latest := there e' he' same
      rw [← same, ← latest]
      refine ih rest he' (fun e'' he'' same' => ?_) _
      rw [latest]
      exact there e'' he'' (same'.trans same)
    · have last : e₀ = e := by
        rcases List.mem_cons.1 he with rfl | he
        · rfl
        · exact absurd ⟨e, he, rfl⟩ again
      subst last
      rw [record?_writeAll_other rest fun e' he' same => again ⟨e', he', same⟩,
        (Entry.draft_writes first).record?, if_pos rfl]

/-- Updating stored entries changes their records and no others. -/
theorem record?_updateAll {f : α → α} (own : ∀ a, Record.id (f a) = Record.id a)
    (readable : ∀ a, Readable (f a)) {ks : Keyspace}
    (current : ∀ e ∈ es, ks.record? α e.id = some e.record) (y : String) :
    record? α ((es.map fun e => (e.modify f).draft).foldl Draft.write ks) y =
      if y ∈ es.map Entry.id then (ks.record? α y).map f else ks.record? α y := by
  have form :
      (es.map fun e => (e.modify f).draft) = (es.map (Entry.modify · f)).map Entry.draft := by
    rw [List.map_map]
    rfl
  have sameId (e : Entry α) : (e.modify f).id = e.id := own e.record
  have readable' : ∀ e ∈ es.map (Entry.modify · f), Readable e.record := by
    intro e he
    obtain ⟨e', _, rfl⟩ := List.mem_map.1 he
    exact readable e'.record
  rw [form]
  split
  next touched =>
    obtain ⟨e, he, rfl⟩ := List.mem_map.1 touched
    rw [current e he, ← sameId e]
    refine record?_writeAll_mem readable' (List.mem_map_of_mem he) ?_ ks
    intro e' he' same
    obtain ⟨e'', he'', rfl⟩ := List.mem_map.1 he'
    rw [sameId, sameId] at same
    have records := current e'' he''
    rw [same, current e he] at records
    exact congrArg f (Option.some.inj records).symm
  next untouched =>
    refine record?_writeAll_other readable' ?_ ks
    intro e he same
    obtain ⟨e', he', rfl⟩ := List.mem_map.1 he
    exact untouched (List.mem_map.2 ⟨e', he', (sameId e').symm.trans same⟩)

end Keyspace

end

end Matchmaking
