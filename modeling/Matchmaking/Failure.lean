import Matchmaking.Key

/-!
# Failures of a store

A *rejection* is a store's verdict on a batch whose conditions did not all hold:
a kind, and the label of the condition to blame if there is one.  Everything
else that goes wrong between a client and its store is a `StoreError`, which
includes rejections.

Rejections that a later attempt may escape are retryable: a lost race, and a
queue that was too short.
-/

namespace Matchmaking

/-! ## Rejections -/

/-- What a rejected batch ran into. -/
inductive FailureKind where
  /-- A queue held fewer members than were asked for. -/
  | insufficientEntries
  /-- Something was there that had to be absent. -/
  | alreadyExists
  /-- Something was absent that had to be there. -/
  | notFound
  /-- A named comparison of a hash field did not hold. -/
  | failedCondition
  /-- The store changed since it was read. -/
  | aborted
deriving DecidableEq

namespace FailureKind

/-- The words for a kind of failure. -/
def name : FailureKind → String
  | insufficientEntries => "insufficient entries"
  | alreadyExists => "entry already exists"
  | notFound => "entry not found"
  | failedCondition => "failed condition"
  | aborted => "transaction aborted"

/-- Whether the same batch may succeed later. -/
def isRetryable : FailureKind → Bool
  | aborted => true
  | insufficientEntries => true
  | _ => false

end FailureKind

/-- A rejected batch. -/
structure Rejection where
  /-- What it ran into. -/
  kind : FailureKind
  /-- The label of the condition to blame. -/
  label : Option String
deriving DecidableEq

namespace Rejection

/-- The rejection that blames no condition. -/
def aborted : Rejection := ⟨.aborted, none⟩

/-- The words for a rejection. -/
def message (r : Rejection) : String :=
  match r.label with
  | some label => r.kind.name ++ ": " ++ label
  | none => r.kind.name

end Rejection

/-! ## Store errors -/

/-- The types of stored values. -/
inductive ValueType where
  /-- A text. -/
  | string
  /-- Members ordered by score. -/
  | sortedSet
  /-- Fields with texts. -/
  | hash
  /-- Texts in a row. -/
  | list
deriving DecidableEq

/-- The words for a type of value. -/
def ValueType.name : ValueType → String
  | string => "string"
  | sortedSet => "sorted set"
  | hash => "hash"
  | list => "list"

/-- Why a record and its text do not go together. -/
inductive SerializationFault where
  /-- The text is no JSON text of the record's type. -/
  | unreadable
  /-- The record has no JSON text. -/
  | unwritable
deriving DecidableEq

/-- The words for a serialization fault. -/
def SerializationFault.message : SerializationFault → String
  | unreadable => "the text does not describe a record of this type"
  | unwritable => "the record has no text"

/-- What can go wrong between a client and its store. -/
inductive StoreError where
  /-- The conditions of a batch did not hold. -/
  | rejected (rejection : Rejection)
  /-- A record could not be written or read. -/
  | serialization (fault : SerializationFault)
  /-- A key holds another type of value than was addressed. -/
  | wrongType (key : Key) (expected : ValueType)
  /-- A request that no store can carry out. -/
  | invalidOperation (reason : String)
  /-- The store itself failed. -/
  | backend (reason : String)
  /-- The configuration cannot be used. -/
  | configuration (reason : String)
  /-- No store of that name is configured. -/
  | unknownDatabase (name : String)
deriving DecidableEq

namespace StoreError

/-- The words for a store error. -/
def message : StoreError → String
  | rejected rejection => "Transaction failed: " ++ rejection.message
  | serialization fault => "Serialization error: " ++ fault.message
  | wrongType key expected => "Wrong type for key " ++ key.text ++ ": expected " ++ expected.name
  | invalidOperation reason => "Invalid operation: " ++ reason
  | backend reason => "Backend error: " ++ reason
  | configuration reason => "Configuration error: " ++ reason
  | unknownDatabase name => "Unknown database: " ++ name

/-- The kind of a rejection. -/
def kind? : StoreError → Option FailureKind
  | rejected rejection => some rejection.kind
  | _ => none

/-- The label of a rejection. -/
def label? : StoreError → Option String
  | rejected rejection => rejection.label
  | _ => none

/-- Whether the error is a rejection of the given kind. -/
def hasKind (e : StoreError) (kind : FailureKind) : Bool := e.kind? = some kind

/-- Whether trying again may help. -/
def isRetryable (e : StoreError) : Bool := e.kind?.any FailureKind.isRetryable

end StoreError

end Matchmaking
