import Matchmaking.Key
import Matchmaking.Score

/-!
# Batches

A batch is what a transaction hands to a store: conditions that must all hold
and commands that are then applied in order.  A store carries out a batch as one
step.  It answers either one reply for each command, or whether each condition
held.

Every condition and every command names exactly one key.
-/

namespace Matchmaking

/-- A member of a sorted set with its score. -/
structure ScoredMember where
  /-- The member. -/
  member : String
  /-- The score it is ordered by. -/
  score : Score
deriving DecidableEq, Inhabited

/-! ## Conditions -/

/-- A condition a store checks before it applies a batch. -/
inductive Condition where
  /-- The key is present. -/
  | keyExists (key : Key)
  /-- The key is absent. -/
  | keyNotExists (key : Key)
  /-- The key holds exactly this text. -/
  | stringEqual (key : Key) (value : String)
  /-- The hash has exactly this many fields; an absent one has none. -/
  | hashLengthEqual (key : Key) (length : Nat)
  /-- The list has exactly this many elements; an absent one has none. -/
  | listLengthEqual (key : Key) (length : Nat)
  /-- The sorted set has more than this many members; an absent one has none. -/
  | sortedSetLonger (key : Key) (length : Nat)
  /-- The hash has the field. -/
  | fieldExists (key : Key) (field : String)
  /-- The hash does not have the field. -/
  | fieldNotExists (key : Key) (field : String)
  /-- The field of the hash holds exactly this text. -/
  | fieldEqual (key : Key) (field value : String)
  /-- The field of the hash is absent or holds another text. -/
  | fieldNotEqual (key : Key) (field value : String)
deriving DecidableEq

/-- The key a condition looks at. -/
def Condition.key : Condition → Key
  | keyExists key => key
  | keyNotExists key => key
  | stringEqual key _ => key
  | hashLengthEqual key _ => key
  | listLengthEqual key _ => key
  | sortedSetLonger key _ => key
  | fieldExists key _ => key
  | fieldNotExists key _ => key
  | fieldEqual key _ _ => key
  | fieldNotEqual key _ _ => key

/-! ## Commands -/

/-- A write that a store applies. -/
inductive Command where
  /-- Makes the key hold a text, whatever it held. -/
  | setString (key : Key) (value : String)
  /-- Removes the key, whatever it held. -/
  | delete (key : Key)
  /-- Adds a member to a sorted set or moves it to another score. -/
  | addMember (key : Key) (member : ScoredMember)
  /-- Removes a member from a sorted set. -/
  | removeMember (key : Key) (member : String)
  /-- Takes up to so many of the first members off a sorted set. -/
  | popFirst (key : Key) (count : Nat)
  /-- Sets fields of a hash in order. -/
  | setFields (key : Key) (fields : List (String × String))
  /-- Removes a field of a hash. -/
  | deleteField (key : Key) (field : String)
deriving DecidableEq

/-- The key a command writes. -/
def Command.key : Command → Key
  | setString key _ => key
  | delete key => key
  | addMember key _ => key
  | removeMember key _ => key
  | popFirst key _ => key
  | setFields key _ => key
  | deleteField key _ => key

/-- What a store answers to one command. -/
inductive Reply where
  /-- The write is done. -/
  | done
  /-- The members taken off a sorted set, first one first. -/
  | popped (members : List ScoredMember)
deriving DecidableEq

/-! ## Batches and outcomes -/

/-- Conditions and commands that a store carries out as one step. -/
structure Batch where
  /-- What has to hold. -/
  conditions : List Condition
  /-- What is written then. -/
  commands : List Command
deriving DecidableEq

/-- Whether a batch has neither conditions nor commands. -/
def Batch.isEmpty (b : Batch) : Bool := b.conditions.isEmpty && b.commands.isEmpty

/-- What a store answers to a batch. -/
inductive Outcome where
  /-- All conditions held; one reply for each command. -/
  | committed (replies : List Reply)
  /-- Some condition did not hold; nothing was written. -/
  | rejected (held : List Bool)
deriving DecidableEq

/-- Whether the batch was applied. -/
def Outcome.isCommitted : Outcome → Bool
  | committed _ => true
  | rejected _ => false

end Matchmaking
