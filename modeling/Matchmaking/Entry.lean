import Matchmaking.Batch
import Matchmaking.Failure
import Matchmaking.Json.Parser

/-!
# Entries

A record is stored as one JSON text under `<kind>:<id>`.  An *entry* is a record
together with the text it was read from.  A record built in memory has no such
text.  The text is never part of what is written.

Updates and deletions of an entry go through only as long as the store still
holds the text the entry was read from.
-/

namespace Matchmaking

/-- A type of records that a store keeps. -/
class Record (α : Type) where
  /-- The namespace of the records' keys. -/
  kind : String
  /-- A namespace holds no separator. -/
  kind_plain : Key.separator ∉ kind.toList
  /-- The identity of a record within its type. -/
  id : α → String
  /-- The JSON value of a record, unless it has none. -/
  encode : α → Option Json
  /-- The record that a JSON value describes. -/
  decode : Json → Option α

/-- Records that wait in queues.  Only their ids stand in a queue. -/
class Queued (α : Type) where
  /-- The queue a record waits in. -/
  queue : α → String
  /-- The score it waits at. -/
  score : α → Score

/-- A record and the text it was read from. -/
structure Entry (α : Type) where
  /-- The record. -/
  record : α
  /-- The text it was read from, if it was read at all. -/
  previous : Option String
deriving DecidableEq

/-- The key of the record of a type with the given id. -/
def Key.entry (α : Type) [Record α] (id : String) : Key := .compose (Record.kind α) id

namespace Entry

variable {α : Type}

/-- An entry that was not read from a store. -/
def fresh (record : α) : Entry α := ⟨record, none⟩

/-- The same origin with a changed record. -/
def modify (e : Entry α) (f : α → α) : Entry α := ⟨f e.record, e.previous⟩

variable [Record α]

/-- The id of an entry. -/
def id (e : Entry α) : String := Record.id e.record

/-- The key of an entry. -/
def key (e : Entry α) : Key := .entry α e.id

/-- The stored form of an entry. -/
def serialize (e : Entry α) : Except StoreError String :=
  match Record.encode e.record with
  | some json => .ok json.print
  | none => .error (.serialization .unwritable)

/-- The entry that a text describes. -/
def deserialize (text : String) : Except StoreError (Entry α) :=
  match (Json.parse text).bind Record.decode with
  | some record => .ok ⟨record, some text⟩
  | none => .error (.serialization .unreadable)

/-- The queue an entry waits in. -/
def queue [Queued α] (e : Entry α) : String := Queued.queue e.record

/-- The place of an entry in its queue. -/
def place [Queued α] (e : Entry α) : ScoredMember := ⟨e.id, Queued.score e.record⟩

end Entry

end Matchmaking
