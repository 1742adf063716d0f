import Matchmaking.Procedure

/-!
# Clients

A client reads single values and commits transactions.  Reads are no part of a
transaction.  An entry that is read carries the text it was read from, and an
absent key and an empty text both count as no entry.
-/

namespace Matchmaking

/-- A procedure that can fail with a store error. -/
abbrev StoreCall := Procedure StoreError

namespace Client

/-- Opens a transaction. -/
def begin : StoreCall Transaction := .request .begin

/-- Commits a transaction. -/
def commit (tx : Transaction) : StoreCall Commit :=
  match tx.submission with
  | .failure e => .done (.error e)
  | .nothing => .done (.ok ⟨tx.id, []⟩)
  | .batch b => .ask (.execute b) fun outcome => .done (tx.conclude outcome)

/-- Opens a transaction, stages operations and commits it. -/
def transact (operations : List Operation) : StoreCall Commit := do
  let tx ← begin
  commit (tx.stageAll operations)

/-- The text at a key, if there is one. -/
def getString (key : Key) : StoreCall (Option String) := .ask (.readString key) .done

/-- The fields of a hash; an absent one has none. -/
def getFields (hash : Key) : StoreCall TextMap := .ask (.readFields hash) .done

/-- The members of a sorted set in order; an absent one has none. -/
def getMembers (key : Key) : StoreCall (List ScoredMember) := .ask (.readMembers key) .done

/-- The members of a queue, first one first. -/
def queueMembers (queue : String) : StoreCall (List ScoredMember) := getMembers (.queue queue)

/-- The length of a queue. -/
def queueLength (queue : String) : StoreCall Nat := return (← queueMembers queue).length

/-- Whether a key is there. -/
def contains (key : Key) : StoreCall Bool := .request (.contains key)

/-- Executes a batch. -/
def execute (batch : Batch) : StoreCall Outcome := .ask (.execute batch) .done

/-- The entry that a stored text describes; an empty text describes none. -/
def entryOfText {α : Type} [Record α] : Option String → Except StoreError (Option (Entry α))
  | none => .ok none
  | some text => if text.isEmpty then .ok none else (Entry.deserialize text).map some

/-- The entry of an id, if it is stored. -/
def get (α : Type) [Record α] (id : String) : StoreCall (Option (Entry α)) := do
  let text ← getString (.entry α id)
  .done (entryOfText text)

end Client

end Matchmaking
