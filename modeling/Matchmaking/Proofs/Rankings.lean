import Matchmaking.Proofs.CanonicalOrder

/-!
# Sorted sets refine finite maps

A sorted set keeps two indexes, which every call updates by itself.  Callers see one
thing: a finite map from members to scores (`ScoreMap`).  Insertions and removals are
those of the map.  A list of members is the *ranking* of the map, its pairs sorted in
the canonical order, and a pop takes a front part of the ranking out of the map.

The map sorts anew whenever it is asked, and the set never sorts.  One call keeps them
together (`Refines.call`), so no sequence of calls tells them apart
(`calls_refine_map`).
-/

namespace Matchmaking

namespace SortedSet

/-! ## Calls -/

/-- A call on a sorted set. -/
inductive Call where
  /-- Adds a member or moves it to another score. -/
  | insert (m : ScoredMember)
  /-- Removes a member, if it is there. -/
  | remove (member : String)
  /-- Takes the first members out, up to a count. -/
  | popFirst (count : Nat)
  /-- Asks for the score of a member. -/
  | score (member : String)
  /-- Lists the members in order. -/
  | list
  /-- Asks for the number of members. -/
  | size

/-- What a call is answered. -/
inductive Answer where
  /-- Whether something is so. -/
  | truth (holds : Bool)
  /-- Members with their scores. -/
  | members (members : List ScoredMember)
  /-- The score of a member, if it is there. -/
  | score (score : Option Score)
  /-- A number. -/
  | number (n : Nat)
deriving DecidableEq

/-- The answer of a sorted set to a call, and the set afterwards. -/
def call (s : SortedSet) : Call → Answer × SortedSet
  | .insert m =>
    let (new, s) := s.add m
    (.truth new, s)
  | .remove member =>
    let (removed, s) := s.remove member
    (.truth removed, s)
  | .popFirst count => (.members (s.first count), s.dropFirst count)
  | .score member => (.score (s.score? member), s)
  | .list => (.members s.members, s)
  | .size => (.number s.size, s)

/-- The answers to calls in order, and the set afterwards. -/
def callAll (s : SortedSet) : List Call → List Answer × SortedSet
  | [] => ([], s)
  | c :: cs =>
    let (answer, s) := s.call c
    let (answers, s) := s.callAll cs
    (answer :: answers, s)

end SortedSet

/-! ## Maps -/

/-- Scores by members. -/
abbrev ScoreMap := Std.ExtTreeMap String Score

namespace ScoreMap

/-- The pairs of a map in the canonical order. -/
def ranking (map : ScoreMap) : List ScoredMember :=
  (map.toList.map fun pair => ⟨pair.1, pair.2⟩).mergeSort fun a b => !decide (b.Before a)

/-- The answer of a map to a call, and the map afterwards. -/
def call (map : ScoreMap) : SortedSet.Call → SortedSet.Answer × ScoreMap
  | .insert m => (.truth (decide (m.member ∉ map)), map.insert m.member m.score)
  | .remove member => (.truth (decide (member ∈ map)), map.erase member)
  | .popFirst count =>
    let popped := map.ranking.take count
    (.members popped, map.filter fun member _ => decide (member ∉ popped.map (·.member)))
  | .score member => (.score map[member]?, map)
  | .list => (.members map.ranking, map)
  | .size => (.number map.size, map)

/-- The answers to calls in order, and the map afterwards. -/
def callAll (map : ScoreMap) : List SortedSet.Call → List SortedSet.Answer × ScoreMap
  | [] => ([], map)
  | c :: cs =>
    let (answer, map) := map.call c
    let (answers, map) := map.callAll cs
    (answer :: answers, map)

end ScoreMap

/-! ## Rankings -/

namespace ScoredMember

variable {a b c : ScoredMember}

theorem not_before_self (a : ScoredMember) : ¬ a.Before a := by
  rw [← precedes_iff_before]
  exact a.not_precedes_self

theorem before_trans (h : a.Before b) (h' : b.Before c) : a.Before c := by
  rw [← precedes_iff_before] at *
  exact precedes_trans h h'

theorem before_of_not (h : ¬ a.Before b) (other : a ≠ b) : b.Before a := by
  rw [← precedes_iff_before] at *
  exact precedes_of_not h other

theorem not_before_trans (h : ¬ b.Before a) (h' : ¬ c.Before b) : ¬ c.Before a := by
  intro behind
  by_cases same : a = b
  · exact h' (same ▸ behind)
  · exact h' (before_trans behind (before_of_not h (Ne.symm same)))

end ScoredMember

namespace ScoreMap

variable (map : ScoreMap)

/-- The pairs of a map are listed once each. -/
theorem nodup_pairs : (map.toList.map fun pair => (⟨pair.1, pair.2⟩ : ScoredMember)).Nodup := by
  refine List.pairwise_map.2 (List.Pairwise.imp ?_ Std.ExtTreeMap.distinct_keys_toList)
  intro a b other same
  exact other (Std.LawfulEqOrd.compare_eq_iff_eq.2 (congrArg ScoredMember.member same))

/-- The ranking holds the pairs of the map. -/
theorem mem_ranking {m : ScoredMember} : m ∈ map.ranking ↔ map[m.member]? = some m.score := by
  rw [ranking, List.mem_mergeSort, ← Std.ExtTreeMap.mem_toList_iff_getElem?_eq_some, List.mem_map]
  constructor
  · rintro ⟨pair, hp, rfl⟩
    exact hp
  · exact fun pair => ⟨_, pair, rfl⟩

theorem length_ranking : map.ranking.length = map.size := by
  rw [ranking, List.length_mergeSort, List.length_map, Std.ExtTreeMap.length_toList]

/-- The ranking is strictly ascending. -/
theorem ranking_ascending : map.ranking.Pairwise ScoredMember.Before := by
  have sorted : map.ranking.Pairwise fun a b => !decide (b.Before a) := by
    refine List.pairwise_mergeSort ?_ ?_ _
    · intro a b c ab bc
      simp only [Bool.not_eq_true', decide_eq_false_iff_not] at *
      exact ScoredMember.not_before_trans ab bc
    · intro a b
      by_cases ahead : b.Before a
      · have behind : ¬ a.Before b := fun h =>
          b.not_before_self (ScoredMember.before_trans ahead h)
        simp [behind]
      · simp [ahead]
  have once : map.ranking.Nodup := (List.mergeSort_perm _ _).nodup_iff.2 map.nodup_pairs
  refine (List.pairwise_and_iff.2 ⟨sorted, once⟩).imp fun {a b} ⟨notBehind, other⟩ => ?_
  simp only [Bool.not_eq_true', decide_eq_false_iff_not] at notBehind
  exact ScoredMember.before_of_not notBehind (Ne.symm other)

/-- The ranking holds each member once. -/
theorem ranking_distinct : (map.ranking.map (·.member)).Nodup := by
  refine List.pairwise_map.2 (List.Pairwise.imp_of_mem ?_ map.ranking_ascending)
  rintro a b ha hb ahead same
  have scores := map.mem_ranking.1 ha
  rw [same, map.mem_ranking.1 hb] at scores
  cases a
  cases b
  cases same
  cases scores
  exact ScoredMember.not_before_self _ ahead

end ScoreMap

namespace SortedSet

/-- A sorted set whose indexes are in step, with the map that it shows. -/
structure Refines (s : SortedSet) (map : ScoreMap) : Prop where
  /-- The map is the index of scores. -/
  scores : s.scores = map
  /-- The list is in step with it. -/
  agrees : s.Agrees

theorem refines_empty : empty.Refines ∅ := ⟨rfl, agrees_empty⟩

namespace Refines

variable {s : SortedSet} {map : ScoreMap} (h : s.Refines map)

include h

theorem score? (member : String) : s.score? member = map[member]? := by
  rw [SortedSet.score?, h.scores]

theorem mem_iff (member : String) : member ∈ map ↔ s.scores[member]?.isSome := by
  rw [h.scores, Std.ExtTreeMap.mem_iff_isSome_getElem?]

/-- An insertion is answered whether the member is new. -/
theorem add_fst (m : ScoredMember) : (s.add m).1 = decide (m.member ∉ map) := by
  rw [Bool.eq_iff_iff, decide_eq_true_iff, h.mem_iff, Option.not_isSome_iff_eq_none]
  exact Option.isNone_iff_eq_none

/-- A removal is answered whether the member was there. -/
theorem remove_fst (member : String) : (s.remove member).1 = decide (member ∈ map) := by
  rw [remove, Bool.eq_iff_iff, decide_eq_true_iff, h.mem_iff]
  cases s.scores[member]? <;> simp

/-- The list of the set is the ranking of the map: both ascend and hold the same pairs. -/
theorem members_eq : s.members = map.ranking := by
  have ascending : s.members.Pairwise ScoredMember.Before :=
    h.agrees.sorted.imp ScoredMember.precedes_iff_before.1
  have perm : s.members.Perm map.ranking := by
    refine (List.perm_ext_iff_of_nodup (Increasing.nodup h.agrees.sorted) ?_).2 fun m => ?_
    · exact (List.mergeSort_perm _ _).nodup_iff.2 map.nodup_pairs
    · rw [h.agrees.mem_members, h.score?, map.mem_ranking]
  refine perm.eq_of_pairwise (fun a b _ _ ab ba => ?_) ascending map.ranking_ascending
  exact absurd (ScoredMember.before_trans ab ba) a.not_before_self

/-- A pop takes the front of the ranking out of the map. -/
theorem scores_dropFirst (count : Nat) :
    (s.dropFirst count).scores =
      map.filter fun member _ => decide (member ∉ (map.ranking.take count).map (·.member)) := by
  refine Std.ExtTreeMap.ext_getElem? fun y => ?_
  change (s.dropFirst count).score? y = _
  rw [score?_dropFirst, first, h.members_eq, h.score?, Std.ExtTreeMap.getElem?_filter']
  by_cases popped : y ∈ (map.ranking.take count).map (·.member)
  · rw [if_pos popped, decide_eq_false (not_not_intro popped)]
    cases map[y]? <;> rfl
  · rw [if_neg popped, decide_eq_true popped]
    cases map[y]? <;> rfl

/-- A call is answered by the set as by the map, and leaves the set with the map. -/
theorem call (c : Call) :
    (s.call c).1 = (map.call c).1 ∧ (s.call c).2.Refines (map.call c).2 := by
  cases c with
  | insert m =>
    exact ⟨congrArg Answer.truth (h.add_fst m),
      congrArg (·.insert m.member m.score) h.scores, h.agrees.insert m⟩
  | remove member =>
    refine ⟨congrArg Answer.truth (h.remove_fst member), ?_, h.agrees.erase member⟩
    refine Std.ExtTreeMap.ext_getElem? fun y => ?_
    change (s.erase member).score? y = (map.erase member)[y]?
    rw [score?_erase, h.score?, Std.ExtTreeMap.getElem?_erase]
    simp only [Std.LawfulEqOrd.compare_eq_iff_eq]
  | popFirst count =>
    refine ⟨?_, h.scores_dropFirst count, h.agrees.dropFirst count⟩
    exact congrArg (fun members => Answer.members (members.take count)) h.members_eq
  | score member => exact ⟨congrArg Answer.score (h.score? member), h⟩
  | list => exact ⟨congrArg Answer.members h.members_eq, h⟩
  | size => exact ⟨congrArg (fun map : ScoreMap => Answer.number map.size) h.scores, h⟩

/-- Calls in a row are answered by the set as by the map. -/
theorem callAll (calls : List Call) :
    (s.callAll calls).1 = (map.callAll calls).1 ∧
      (s.callAll calls).2.Refines (map.callAll calls).2 := by
  induction calls generalizing s map with
  | nil => exact ⟨rfl, h⟩
  | cons c cs ih =>
    obtain ⟨answer, next⟩ := h.call c
    obtain ⟨answers, after⟩ := ih next
    exact ⟨List.cons_eq_cons.2 ⟨answer, answers⟩, after⟩

end Refines

/-- No sequence of calls tells a sorted set from a finite map that lists its pairs in the
canonical order.  Whatever the calls, every answer is that of the map, and the set lists
the map: strictly ascending, each member once and at its score, and up to a count as
many as there are. -/
theorem calls_refine_map (calls : List Call) :
    let set := (empty.callAll calls).2
    let map := (ScoreMap.callAll ∅ calls).2
    (empty.callAll calls).1 = (ScoreMap.callAll ∅ calls).1 ∧
      set.members = map.ranking ∧
      set.size = map.size ∧
      map.ranking.Pairwise ScoredMember.Before ∧
      (map.ranking.map (·.member)).Nodup ∧
      (∀ m : ScoredMember, m ∈ map.ranking ↔ map[m.member]? = some m.score) ∧
      ∀ count, (map.ranking.take count).length = min count map.size := by
  intro set map
  obtain ⟨answers, refines⟩ := refines_empty.callAll calls
  have refines : set.Refines map := refines
  refine ⟨answers, refines.members_eq, congrArg _ refines.scores, map.ranking_ascending,
    map.ranking_distinct, fun m => map.mem_ranking, fun count => ?_⟩
  rw [List.length_take, map.length_ranking]

/-- The canonical order is not that of numbers: a NaN with a sign comes first, and `-0` in
front of `0`, whatever the members. -/
example :
    (empty.callAll [.insert ⟨"a", ⟨0⟩⟩, .insert ⟨"b", ⟨0x8000000000000000⟩⟩,
      .insert ⟨"c", ⟨0xFFF8000000000000⟩⟩, .popFirst 2, .list]).1 =
    [.truth true, .truth true, .truth true,
      .members [⟨"c", ⟨0xFFF8000000000000⟩⟩, ⟨"b", ⟨0x8000000000000000⟩⟩],
      .members [⟨"a", ⟨0⟩⟩]] := by
  decide

end SortedSet

end Matchmaking
