import Matchmaking.Failure
import Matchmaking.SortedSet
import Matchmaking.TextMap

/-!
# Values

A key of a store holds a text, a sorted set, a hash or a list.  Entries are
texts, queues are sorted sets and metadata are hashes.  Lists are only looked at
by conditions on their length.
-/

namespace Matchmaking

/-- A stored value. -/
inductive Value where
  /-- A text. -/
  | string (text : String)
  /-- Members ordered by score. -/
  | sortedSet (set : SortedSet)
  /-- Fields with texts. -/
  | hash (fields : TextMap)
  /-- Texts in a row. -/
  | list (items : List String)
deriving DecidableEq

namespace Value

/-- The type of a value. -/
def type : Value → ValueType
  | string _ => .string
  | sortedSet _ => .sortedSet
  | hash _ => .hash
  | list _ => .list

/-- Whether the value is a collection without elements. -/
def isEmptyCollection : Value → Bool
  | string _ => false
  | sortedSet set => set.isEmpty
  | hash fields => fields.isEmpty
  | list items => items.isEmpty

end Value

end Matchmaking
