import Std.Data.ExtTreeMap
import Matchmaking.Batch

/-!
# Sorted sets

A sorted set maps members to scores and lists them by score, members of one
score by their text.  It keeps two indexes: the score of each member, and the
ordered list.  Every operation keeps them in step (`SortedSet.Agrees`): the list
is strictly increasing and pairs exactly the members of the map with their
scores.

Popping takes a front part of the list.
-/

namespace Matchmaking

namespace ScoredMember

/-- Scores decide, and members decide between equal scores. -/
def order (a b : ScoredMember) : Ordering :=
  (compare a.score b.score).then (compare a.member b.member)

/-- Whether one member stands in front of another. -/
def precedes (a b : ScoredMember) : Bool := order a b == .lt

end ScoredMember

/-- Members with scores, by two indexes. -/
structure SortedSet where
  /-- The score of each member. -/
  scores : Std.ExtTreeMap String Score
  /-- The members in order. -/
  members : List ScoredMember
deriving DecidableEq

namespace SortedSet

/-- The set without members. -/
def empty : SortedSet := ⟨∅, []⟩

instance : Inhabited SortedSet := ⟨empty⟩

/-- The two indexes hold the same members with the same scores, in order. -/
structure Agrees (s : SortedSet) : Prop where
  /-- The list is strictly increasing. -/
  sorted : s.members.Pairwise fun a b => a.precedes b
  /-- The list holds exactly the pairs of the map. -/
  mem_iff : ∀ m : ScoredMember, m ∈ s.members ↔ s.scores[m.member]? = some m.score

/-- Puts a member in front of the first one that does not precede it. -/
def place (m : ScoredMember) : List ScoredMember → List ScoredMember
  | [] => [m]
  | x :: xs => if x.precedes m then x :: place m xs else m :: x :: xs

/-- Adds a member or moves it to another score, and says whether it is new. -/
def add (s : SortedSet) (m : ScoredMember) : Bool × SortedSet :=
  let old := s.scores[m.member]?
  let others := match old with
    | some score => s.members.erase ⟨m.member, score⟩
    | none => s.members
  (old.isNone, ⟨s.scores.insert m.member m.score, place m others⟩)

/-- The set with a member added or moved. -/
def insert (s : SortedSet) (m : ScoredMember) : SortedSet := (s.add m).2

/-- The score of a member. -/
def score? (s : SortedSet) (member : String) : Option Score := s.scores[member]?

/-- Removes a member, if it is there, and says whether it was. -/
def remove (s : SortedSet) (member : String) : Bool × SortedSet :=
  match s.scores[member]? with
  | some old => (true, ⟨s.scores.erase member, s.members.erase ⟨member, old⟩⟩)
  | none => (false, s)

/-- The set without a member. -/
def erase (s : SortedSet) (member : String) : SortedSet := (s.remove member).2

/-- The first members, up to a count. -/
def first (s : SortedSet) (count : Nat) : List ScoredMember := s.members.take count

/-- Removes the first members, up to a count. -/
def dropFirst (s : SortedSet) (count : Nat) : SortedSet :=
  ⟨(s.first count).foldl (fun scores m => scores.erase m.member) s.scores, s.members.drop count⟩

/-- The number of members. -/
def size (s : SortedSet) : Nat := s.scores.size

/-- Whether there are no members. -/
def isEmpty (s : SortedSet) : Bool := s.scores.isEmpty

end SortedSet

end Matchmaking
