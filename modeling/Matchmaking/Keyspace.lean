import Matchmaking.Value

/-!
# The keyspace of a store

A store maps keys to values.  A collection that becomes empty is removed with its
key, so an empty collection and an absent key are the same thing.

A batch is executed as one step.

1. Every condition is evaluated on the keyspace as it is.
2. If one does not hold, the batch is rejected and nothing is written.
3. Every command is checked against the type its key will have when the command
   runs.  One that addresses another type fails the batch, and nothing is
   written.
4. The commands are applied in order.
-/

namespace Matchmaking

/-- The values of a store by their keys. -/
abbrev Keyspace := Std.ExtTreeMap Key Value

namespace Keyspace

/-! ## Conditions -/

/-- The number of fields of a hash; none if the key holds another type. -/
def hashLength? (ks : Keyspace) (key : Key) : Option Nat :=
  match ks[key]? with
  | none => some 0
  | some (.hash fields) => some fields.size
  | some _ => none

/-- The length of a list; none if the key holds another type. -/
def listLength? (ks : Keyspace) (key : Key) : Option Nat :=
  match ks[key]? with
  | none => some 0
  | some (.list items) => some items.length
  | some _ => none

/-- The size of a sorted set; none if the key holds another type. -/
def sortedSetSize? (ks : Keyspace) (key : Key) : Option Nat :=
  match ks[key]? with
  | none => some 0
  | some (.sortedSet set) => some set.size
  | some _ => none

/-- The text in a field of a hash.  A key that holds another type has no
fields. -/
def field? (ks : Keyspace) (key : Key) (field : String) : Option String :=
  match ks[key]? with
  | some (.hash fields) => fields[field]?
  | _ => none

/-- Whether a condition holds. -/
def holds (ks : Keyspace) : Condition → Bool
  | .keyExists key => ks.contains key
  | .keyNotExists key => !ks.contains key
  | .stringEqual key value => ks[key]? = some (.string value)
  | .hashLengthEqual key length => ks.hashLength? key = some length
  | .listLengthEqual key length => ks.listLength? key = some length
  | .sortedSetLonger key length => (ks.sortedSetSize? key).any (length < ·)
  | .fieldExists key field => (ks.field? key field).isSome
  | .fieldNotExists key field => (ks.field? key field).isNone
  | .fieldEqual key field value => ks.field? key field = some value
  | .fieldNotEqual key field value => ks.field? key field ≠ some value

/-! ## The type check -/

/-- The type each key will have at some point of a batch. -/
abbrev Types := Key → Option ValueType

/-- The types of the values a keyspace holds. -/
def types (ks : Keyspace) : Types := fun key => ks[key]?.map Value.type

/-- The types after one key got another one. -/
def Types.set (ts : Types) (key : Key) (type : Option ValueType) : Types :=
  fun k => if k = key then type else ts k

/-- The type a command needs its key to have, if the key is present. -/
def requiredType : Command → Option ValueType
  | .setString _ _ => none
  | .delete _ => none
  | .addMember _ _ => some .sortedSet
  | .removeMember _ _ => some .sortedSet
  | .popFirst _ _ => some .sortedSet
  | .setFields _ _ => some .hash
  | .deleteField _ _ => some .hash

/-- The type of the key after a command.  Removals never create a key, and
neither does setting no fields. -/
def typeAfter (current : Option ValueType) : Command → Option ValueType
  | .setString _ _ => some .string
  | .delete _ => none
  | .addMember _ _ => some .sortedSet
  | .removeMember _ _ => current
  | .popFirst _ _ => current
  | .setFields _ fields => if fields.isEmpty then current else some .hash
  | .deleteField _ _ => current

/-- The type a command needs, if a key of the current type has another one. -/
def mismatch? (current : Option ValueType) (command : Command) : Option ValueType :=
  match current, requiredType command with
  | some found, some expected => if found = expected then none else some expected
  | _, _ => none

/-- The first command whose key will have the wrong type, with the type it
needs. -/
def firstMismatch (ts : Types) : List Command → Option (Key × ValueType)
  | [] => none
  | command :: commands =>
    match mismatch? (ts command.key) command with
    | some expected => some (command.key, expected)
    | none =>
      firstMismatch (ts.set command.key (typeAfter (ts command.key) command)) commands

/-! ## Commands -/

/-- Makes a key hold a value; an empty collection removes the key. -/
def put (ks : Keyspace) (key : Key) (value : Value) : Keyspace :=
  if value.isEmptyCollection then ks.erase key else ks.insert key value

/-- Applies one command.  A command whose key holds another type changes
nothing. -/
def apply (ks : Keyspace) : Command → Reply × Keyspace
  | .setString key value => (.done, ks.insert key (.string value))
  | .delete key => (.done, ks.erase key)
  | .addMember key member =>
    match ks[key]? with
    | none => (.done, ks.insert key (.sortedSet (SortedSet.empty.insert member)))
    | some (.sortedSet set) => (.done, ks.insert key (.sortedSet (set.insert member)))
    | some _ => (.done, ks)
  | .removeMember key member =>
    match ks[key]? with
    | some (.sortedSet set) => (.done, ks.put key (.sortedSet (set.erase member)))
    | _ => (.done, ks)
  | .popFirst key count =>
    match ks[key]? with
    | some (.sortedSet set) =>
      (.popped (set.first count), ks.put key (.sortedSet (set.dropFirst count)))
    | _ => (.popped [], ks)
  | .setFields key updates =>
    if updates.isEmpty then (.done, ks)
    else match ks[key]? with
      | none => (.done, ks.insert key (.hash (TextMap.setAll ∅ updates)))
      | some (.hash fields) => (.done, ks.insert key (.hash (TextMap.setAll fields updates)))
      | some _ => (.done, ks)
  | .deleteField key field =>
    match ks[key]? with
    | some (.hash fields) => (.done, ks.put key (.hash (fields.erase field)))
    | _ => (.done, ks)

/-- Applies commands in order. -/
def applyAll (ks : Keyspace) : List Command → List Reply × Keyspace
  | [] => ([], ks)
  | command :: commands =>
    let (reply, ks) := ks.apply command
    let (replies, ks) := ks.applyAll commands
    (reply :: replies, ks)

/-! ## Batches -/

/-- Executes a batch as one step. -/
def execute (ks : Keyspace) (batch : Batch) : Except StoreError Outcome × Keyspace :=
  let held := batch.conditions.map ks.holds
  if held.all id then
    match firstMismatch ks.types batch.commands with
    | some (key, expected) => (.error (.wrongType key expected), ks)
    | none =>
      let (replies, ks) := ks.applyAll batch.commands
      (.ok (.committed replies), ks)
  else (.ok (.rejected held), ks)

/-! ## Lists -/

/-- Appends texts to a list and answers its new length.  Appending nothing
creates no list. -/
def append (ks : Keyspace) (key : Key) (texts : List String) : Except StoreError Nat × Keyspace :=
  match ks[key]? with
  | none => (.ok texts.length, ks.put key (.list texts))
  | some (.list items) => (.ok (items ++ texts).length, ks.put key (.list (items ++ texts)))
  | some _ => (.error (.wrongType key .list), ks)

/-! ## Reads -/

/-- The text at a key, if there is one. -/
def string (ks : Keyspace) (key : Key) : Except StoreError (Option String) :=
  match ks[key]? with
  | none => .ok none
  | some (.string text) => .ok (some text)
  | some _ => .error (.wrongType key .string)

/-- The fields of the hash at a key; an absent one has none. -/
def fields (ks : Keyspace) (key : Key) : Except StoreError TextMap :=
  match ks[key]? with
  | none => .ok ∅
  | some (.hash fields) => .ok fields
  | some _ => .error (.wrongType key .hash)

/-- The members of the sorted set at a key in order; an absent one has none. -/
def members (ks : Keyspace) (key : Key) : Except StoreError (List ScoredMember) :=
  match ks[key]? with
  | none => .ok []
  | some (.sortedSet set) => .ok set.members
  | some _ => .error (.wrongType key .sortedSet)

end Keyspace

end Matchmaking
