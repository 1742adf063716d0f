import Matchmaking.Entry
import Matchmaking.Registry

/-!
# Transactions

A transaction collects writes and conditions.  Nothing reaches the store before
it is committed, and then everything does in one batch.

A staging call is an `Operation`.  Staging never fails.  A call that cannot be
staged leaves an error behind, the first such error is what a commit returns,
and the store is not asked.  What else is staged counts as usual.

* Creating an entry needs its key to be absent.
* Updating or deleting an entry needs its key to be there and to hold the text
  the entry was read from.  An entry that was not read is compared with the
  empty text.
* A dequeue needs the queue to be long enough.  Its ticket names the reply that
  will hold the popped members.

A transaction without writes, conditions and errors commits without asking the
store.
-/

namespace Matchmaking

/-- Limits of the transactions of a client. -/
structure Settings where
  /-- The most members one dequeue may take. -/
  maxDequeue : Nat
  /-- Commits that take longer than so many milliseconds count as slow. -/
  slowCommitMillis : Nat
deriving DecidableEq, Inhabited

/-- The limits that hold unless others are configured. -/
def Settings.default : Settings := ⟨1000, 100⟩

/-! ## Operations -/

/-- What a transaction needs to know of an entry. -/
structure Draft where
  /-- The key of the entry. -/
  key : Key
  /-- Its stored form, or why there is none. -/
  text : Except StoreError String
  /-- The text it was read from. -/
  previous : Option String

/-- A place in a named queue. -/
structure QueuePlace where
  /-- The name of the queue. -/
  queue : String
  /-- The member and its score. -/
  member : ScoredMember
deriving DecidableEq

/-- What a transaction needs to know of an entry to write it. -/
def Entry.draft {α : Type} [Record α] (e : Entry α) : Draft := ⟨e.key, e.serialize, e.previous⟩

/-- Where an entry waits. -/
def Entry.queuePlace {α : Type} [Record α] [Queued α] (e : Entry α) : QueuePlace :=
  ⟨e.queue, e.place⟩

/-- A staging call. -/
inductive Operation where
  /-- Writes entries whose keys are absent. -/
  | create (entries : List Draft)
  /-- Overwrites entries that have not changed since they were read. -/
  | update (entries : List Draft)
  /-- Deletes entries that have not changed since they were read. -/
  | delete (entries : List Draft)
  /-- Deletes a key that is there. -/
  | deleteKey (key : Key)
  /-- Puts members into their queues or moves them. -/
  | enqueue (places : List QueuePlace)
  /-- Puts members into one queue or moves them. -/
  | enqueueMembers (queue : String) (members : List ScoredMember)
  /-- Removes members from their queues. -/
  | unqueue (places : List QueuePlace)
  /-- Pops the first members of a queue. -/
  | dequeue (queue : String) (count : Nat)
  /-- Sets fields of a hash that has none. -/
  | createHash (hash : Key) (fields : List (String × String))
  /-- Sets fields of a hash; an empty text removes the field. -/
  | updateHash (hash : Key) (fields : List (String × String))
  /-- Removes a field that is there from a hash that is there. -/
  | deleteField (hash : Key) (field : String)
  /-- Needs a list to be empty or absent. -/
  | requireEmptyList (list : Key)
  /-- Needs a hash to be empty or absent. -/
  | requireEmptyHash (hash : Key)
  /-- Needs a hash to have a field. -/
  | requireField (hash : Key) (field : String)
  /-- Needs a hash not to have a field. -/
  | requireNoField (hash : Key) (field : String)
  /-- Needs a field to hold a text. -/
  | requireFieldEqual (hash : Key) (field value : String)
  /-- Needs a field to be absent or to hold another text. -/
  | requireFieldNotEqual (hash : Key) (field value : String)

/-! ## Staging -/

/-- A transaction under construction. -/
structure Transaction where
  /-- The number of the transaction among those of its clients. -/
  id : Nat
  /-- Its limits. -/
  settings : Settings
  /-- Its conditions. -/
  registry : Registry
  /-- Its writes in order. -/
  commands : List Command
  /-- The first error of a staging call. -/
  deferred : Option StoreError

/-- The reply that a dequeue waits for. -/
structure Ticket where
  /-- The transaction that staged the dequeue. -/
  transaction : Nat
  /-- The place of its reply. -/
  index : Nat
deriving DecidableEq

namespace Transaction

/-- A transaction with nothing staged. -/
def empty (id : Nat) (settings : Settings) : Transaction := ⟨id, settings, .empty, [], none⟩

/-- Whether nothing was staged, errors included. -/
def isEmpty (tx : Transaction) : Bool :=
  tx.commands.isEmpty && tx.registry.isEmpty && tx.deferred.isNone

/-- Remembers an error unless there is one already. -/
def fail (tx : Transaction) (e : StoreError) : Transaction :=
  { tx with deferred := tx.deferred.or (some e) }

/-- Adds a condition. -/
def require (tx : Transaction) (concern : Concern) (label : String) (condition : Condition) :
    Transaction :=
  { tx with registry := tx.registry.attach concern label condition }

/-- Adds a write. -/
def write (tx : Transaction) (command : Command) : Transaction :=
  { tx with commands := tx.commands ++ [command] }

/-- Adds writes in order. -/
def writeAll (tx : Transaction) (commands : List Command) : Transaction :=
  { tx with commands := tx.commands ++ commands }

/-- Needs a key to be there and to hold the text an entry was read from. -/
def requireUnchanged (tx : Transaction) (d : Draft) : Transaction :=
  (tx.require .presence d.key.text (.keyExists d.key)).require .snapshot ""
    (.stringEqual d.key (d.previous.getD ""))

/-- Stages the creation of one entry. -/
def createOne (tx : Transaction) (d : Draft) : Transaction :=
  match d.text with
  | .ok text => (tx.require .absence d.key.text (.keyNotExists d.key)).write (.setString d.key text)
  | .error e => tx.fail e

/-- Stages the update of one entry. -/
def updateOne (tx : Transaction) (d : Draft) : Transaction :=
  match d.text with
  | .ok text => (tx.requireUnchanged d).write (.setString d.key text)
  | .error e => tx.fail e

/-- Stages the deletion of one entry. -/
def deleteOne (tx : Transaction) (d : Draft) : Transaction :=
  (tx.requireUnchanged d).write (.delete d.key)

/-- The error of a dequeue that no store can carry out. -/
def dequeueOutOfBounds (queue : String) (count max : Nat) : StoreError :=
  .invalidOperation
    ("dequeue of " ++ toString count ++ " from '" ++ queue ++ "' outside 1..=" ++ toString max)

/-- The write that sets one field, or removes it if the text is empty. -/
def fieldCommand (hash : Key) (field : String × String) : Command :=
  if field.2.isEmpty then .deleteField hash field.1 else .setFields hash [field]

/-- Stages one operation. -/
def stage (tx : Transaction) : Operation → Transaction
  | .create entries => entries.foldl createOne tx
  | .update entries => entries.foldl updateOne tx
  | .delete entries => entries.foldl deleteOne tx
  | .deleteKey key => (tx.require .presence key.text (.keyExists key)).write (.delete key)
  | .enqueue places => tx.writeAll (places.map fun p => .addMember (.queue p.queue) p.member)
  | .enqueueMembers queue members => tx.writeAll (members.map (.addMember (.queue queue)))
  | .unqueue places =>
    tx.writeAll (places.map fun p => .removeMember (.queue p.queue) p.member.member)
  | .dequeue queue count =>
    if 0 < count ∧ count ≤ tx.settings.maxDequeue then
      let key := Key.queue queue
      (tx.require .queueLength key.text (.sortedSetLonger key (count - 1))).write
        (.popFirst key count)
    else tx.fail (dequeueOutOfBounds queue count tx.settings.maxDequeue)
  | .createHash hash fields =>
    (tx.require .absence hash.text (.hashLengthEqual hash 0)).write (.setFields hash fields)
  | .updateHash hash fields => tx.writeAll (fields.map (fieldCommand hash))
  | .deleteField hash field =>
    ((tx.require .presence hash.text (.keyExists hash)).require .presence (hash.fieldLabel field)
      (.fieldExists hash field)).write (.deleteField hash field)
  | .requireEmptyList list => tx.require .absence list.text (.listLengthEqual list 0)
  | .requireEmptyHash hash => tx.require .absence hash.text (.hashLengthEqual hash 0)
  | .requireField hash field =>
    tx.require .presence (hash.fieldLabel field) (.fieldExists hash field)
  | .requireNoField hash field =>
    tx.require .absence (hash.fieldLabel field) (.fieldNotExists hash field)
  | .requireFieldEqual hash field value =>
    tx.require .value (hash.fieldLabel field ++ " == " ++ value) (.fieldEqual hash field value)
  | .requireFieldNotEqual hash field value =>
    tx.require .value (hash.fieldLabel field ++ " != " ++ value) (.fieldNotEqual hash field value)

/-- Stages operations in order. -/
def stageAll (tx : Transaction) (operations : List Operation) : Transaction :=
  operations.foldl stage tx

/-- The ticket of a dequeue that is staged next. -/
def nextTicket (tx : Transaction) : Ticket := ⟨tx.id, tx.commands.length⟩

/-- Stages a dequeue and hands out its ticket. -/
def dequeue (tx : Transaction) (queue : String) (count : Nat) : Ticket × Transaction :=
  (tx.nextTicket, tx.stage (.dequeue queue count))

end Transaction

/-! ## Committing -/

/-- A committed transaction. -/
structure Commit where
  /-- The number of the transaction. -/
  transaction : Nat
  /-- One reply for each write. -/
  replies : List Reply
deriving DecidableEq

namespace Commit

/-- The number of writes. -/
def applied (c : Commit) : Nat := c.replies.length

/-- The members that the dequeue of a ticket popped, first one first.  A ticket
of another transaction has none. -/
def dequeued (c : Commit) (ticket : Ticket) : List ScoredMember :=
  if ticket.transaction = c.transaction then
    match c.replies[ticket.index]? with
    | some (.popped members) => members
    | _ => []
  else []

/-- The ids that the dequeue of a ticket popped. -/
def dequeuedIds (c : Commit) (ticket : Ticket) : List String :=
  (c.dequeued ticket).map (·.member)

end Commit

namespace Transaction

/-- What a commit does. -/
inductive Submission where
  /-- It fails without asking the store. -/
  | failure (e : StoreError)
  /-- It succeeds without asking the store. -/
  | nothing
  /-- It asks the store to execute a batch. -/
  | batch (b : Batch)

/-- What committing the transaction does. -/
def submission (tx : Transaction) : Submission :=
  match tx.deferred with
  | some e => .failure e
  | none =>
    if tx.commands.isEmpty && tx.registry.isEmpty then .nothing
    else .batch ⟨tx.registry.take.1, tx.commands⟩

/-- The result of a commit by the answer of the store. -/
def conclude (tx : Transaction) : Except StoreError Outcome → Except StoreError Commit
  | .ok (.committed replies) => .ok ⟨tx.id, replies⟩
  | .ok (.rejected held) => .error (.rejected (tx.registry.recordAnswers held).diagnose)
  | .error e => .error e

end Transaction

end Matchmaking
