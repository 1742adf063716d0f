import Matchmaking.SortedSet

/-!
# Sorted sets keep their indexes in step

Adding a member, removing one and popping the first ones keep the list of a
sorted set strictly increasing and paired with its map (`SortedSet.Agrees`).  So
what a set holds can be read off its map alone, and the first members of the list
are members of the map.
-/

namespace Matchmaking

namespace ScoredMember

instance : Std.TransCmp order :=
  inferInstanceAs (Std.TransCmp (compareLex (compareOn score) (compareOn member)))

theorem eq_of_order {a b : ScoredMember} (h : order a b = .eq) : a = b := by
  rw [order, Ordering.then_eq_eq] at h
  have score : a.score = b.score := Std.LawfulEqCmp.eq_of_compare h.1
  have member : a.member = b.member := Std.LawfulEqCmp.eq_of_compare h.2
  cases a
  cases b
  cases score
  cases member
  rfl

theorem precedes_iff {a b : ScoredMember} : a.precedes b ↔ order a b = .lt := beq_iff_eq

theorem not_precedes_self (a : ScoredMember) : ¬ a.precedes a := by
  have same : order a a = .eq := Std.ReflCmp.compare_self
  rw [precedes_iff, same]
  decide

theorem precedes_trans {a b c : ScoredMember} (h : a.precedes b) (h' : b.precedes c) :
    a.precedes c := by
  rw [precedes_iff] at *
  exact Std.TransCmp.lt_trans h h'

/-- Of two different members one precedes the other. -/
theorem precedes_of_not {a b : ScoredMember} (h : ¬ a.precedes b) (other : a ≠ b) :
    b.precedes a := by
  rw [precedes_iff] at *
  cases order : ScoredMember.order a b with
  | lt => exact absurd order h
  | eq => exact absurd (eq_of_order order) other
  | gt => exact Std.OrientedCmp.lt_of_gt order

end ScoredMember

namespace SortedSet

/-! ## Lists in order -/

/-- A strictly increasing list of members. -/
abbrev Increasing (xs : List ScoredMember) : Prop := xs.Pairwise fun a b => a.precedes b

theorem Increasing.nodup {xs : List ScoredMember} (h : Increasing xs) : xs.Nodup := by
  refine List.Pairwise.imp ?_ h
  rintro a b less rfl
  exact a.not_precedes_self less

theorem mem_place {m a : ScoredMember} {xs : List ScoredMember} :
    a ∈ place m xs ↔ a = m ∨ a ∈ xs := by
  induction xs with
  | nil => simp [place]
  | cons x xs ih =>
    rw [place]
    split
    · simp only [List.mem_cons, ih, or_left_comm]
    · exact List.mem_cons

/-- Placing a new member keeps a list in order. -/
theorem place_increasing {m : ScoredMember} {xs : List ScoredMember} (h : Increasing xs)
    (new : m ∉ xs) : Increasing (place m xs) := by
  induction xs with
  | nil => exact List.pairwise_singleton _ m
  | cons x xs ih =>
    obtain ⟨first, rest⟩ := List.pairwise_cons.1 h
    rw [List.mem_cons, not_or] at new
    obtain ⟨other, fresh⟩ := new
    rw [place]
    split
    next before =>
      refine List.pairwise_cons.2 ⟨fun a ha => ?_, ih rest fresh⟩
      rcases mem_place.1 ha with rfl | ha
      · exact before
      · exact first a ha
    next behind =>
      have here : m.precedes x := ScoredMember.precedes_of_not behind (Ne.symm other)
      refine List.pairwise_cons.2 ⟨fun a ha => ?_, h⟩
      rcases List.mem_cons.1 ha with rfl | ha
      · exact here
      · exact ScoredMember.precedes_trans here (first a ha)

/-! ## Scores after an operation -/

@[simp] theorem score?_insert (s : SortedSet) (m : ScoredMember) (y : String) :
    (s.insert m).score? y = if m.member = y then some m.score else s.score? y := by
  rw [score?, score?, insert, add]
  dsimp only
  rw [Std.ExtTreeMap.getElem?_insert]
  simp only [Std.LawfulEqOrd.compare_eq_iff_eq]

@[simp] theorem score?_erase (s : SortedSet) (member y : String) :
    (s.erase member).score? y = if member = y then none else s.score? y := by
  rw [score?, score?, erase, remove]
  cases h : s.scores[member]? with
  | none =>
    dsimp only
    split
    next same => rw [← same, h]
    next => rfl
  | some old =>
    dsimp only
    rw [Std.ExtTreeMap.getElem?_erase]
    simp only [Std.LawfulEqOrd.compare_eq_iff_eq]

@[simp] theorem getElem?_eraseAll (scores : Std.ExtTreeMap String Score) (ms : List ScoredMember)
    (y : String) :
    (ms.foldl (fun scores m => scores.erase m.member) scores)[y]? =
      if y ∈ ms.map (·.member) then none else scores[y]? := by
  induction ms generalizing scores with
  | nil => simp
  | cons m ms ih =>
    rw [List.foldl_cons, ih, Std.ExtTreeMap.getElem?_erase]
    simp only [Std.LawfulEqOrd.compare_eq_iff_eq, List.map_cons, List.mem_cons]
    by_cases rest : y ∈ ms.map (·.member)
    · rw [if_pos rest, if_pos (.inr rest)]
    · rw [if_neg rest]
      by_cases here : m.member = y
      · rw [if_pos here, if_pos (.inl here.symm)]
      · rw [if_neg here, if_neg]
        rintro (same | mem)
        · exact here same.symm
        · exact rest mem

theorem score?_dropFirst (s : SortedSet) (count : Nat) (y : String) :
    (s.dropFirst count).score? y =
      if y ∈ (s.first count).map (·.member) then none else s.score? y :=
  getElem?_eraseAll s.scores (s.first count) y

/-! ## Agreement -/

theorem agrees_empty : empty.Agrees :=
  ⟨List.Pairwise.nil, fun m => by simp [empty]⟩

namespace Agrees

variable {s : SortedSet} (h : s.Agrees)

include h

theorem mem_members {m : ScoredMember} : m ∈ s.members ↔ s.score? m.member = some m.score :=
  h.mem_iff m

/-- The list holds each member at one score. -/
theorem eq_of_member {a b : ScoredMember} (ha : a ∈ s.members) (hb : b ∈ s.members)
    (same : a.member = b.member) : a = b := by
  have scores := (h.mem_iff a).1 ha
  rw [same, (h.mem_iff b).1 hb] at scores
  cases a
  cases b
  cases same
  cases scores
  rfl

/-- No two places of the list hold one member. -/
theorem distinct : s.members.Pairwise fun a b => a.member ≠ b.member := by
  refine List.Pairwise.imp_of_mem ?_ h.sorted
  rintro a b ha hb less same
  obtain rfl := h.eq_of_member ha hb same
  exact a.not_precedes_self less

/-- The list holds one place for each score of the map. -/
theorem length_members : s.members.length = s.size := by
  have names : (s.members.map (·.member)).Perm s.scores.keys := by
    refine (List.perm_ext_iff_of_nodup ?_ Std.ExtTreeMap.nodup_keys).2 fun y => ?_
    · exact List.pairwise_map.2 h.distinct
    · rw [Std.ExtTreeMap.mem_keys, Std.ExtTreeMap.mem_iff_isSome_getElem?,
        Option.isSome_iff_exists, List.mem_map]
      constructor
      · rintro ⟨m, hm, rfl⟩
        exact ⟨m.score, (h.mem_iff m).1 hm⟩
      · rintro ⟨score, there⟩
        exact ⟨⟨y, score⟩, (h.mem_iff _).2 there, rfl⟩
  rw [size, ← Std.ExtTreeMap.length_keys, ← names.length_eq, List.length_map]

/-- A set without scores has no members. -/
theorem eq_empty (none : s.isEmpty) : s = empty := by
  have scores : s.scores = ∅ := Std.ExtTreeMap.isEmpty_iff.1 none
  have members : s.members = [] := by
    refine List.eq_nil_iff_forall_not_mem.2 fun m hm => ?_
    have := (h.mem_iff m).1 hm
    rw [scores, Std.ExtTreeMap.getElem?_empty] at this
    contradiction
  cases s
  cases scores
  cases members
  rfl

/-- What `insert` places its member into: the other members. -/
theorem mem_others (member : String) (a : ScoredMember) :
    a ∈ (match s.scores[member]? with
      | some old => s.members.erase ⟨member, old⟩
      | none => s.members) ↔ a ∈ s.members ∧ a.member ≠ member := by
  cases old : s.scores[member]? with
  | some old' =>
    dsimp only
    rw [(Increasing.nodup h.sorted).mem_erase_iff]
    have here : (⟨member, old'⟩ : ScoredMember) ∈ s.members := (h.mem_iff _).2 old
    constructor
    · rintro ⟨other, ha⟩
      exact ⟨ha, fun same => other (h.eq_of_member ha here same)⟩
    · rintro ⟨ha, other⟩
      exact ⟨fun same => other (same ▸ rfl), ha⟩
  | none =>
    dsimp only
    refine ⟨fun ha => ⟨ha, fun same => ?_⟩, And.left⟩
    have := (h.mem_iff a).1 ha
    rw [same, old] at this
    contradiction

theorem insert (m : ScoredMember) : (s.insert m).Agrees := by
  have others := h.mem_others m.member
  constructor
  · refine place_increasing ?_ fun hm => ((others m).1 hm).2 rfl
    split
    · exact h.sorted.sublist List.erase_sublist
    · exact h.sorted
  · intro a
    rw [show (s.insert m).scores[a.member]? = (s.insert m).score? a.member from rfl, score?_insert]
    refine (mem_place.trans (or_congr_right (others a))).trans ?_
    rw [h.mem_members]
    split
    next same =>
      constructor
      · rintro (rfl | ⟨-, other⟩)
        · rfl
        · exact absurd same.symm other
      · intro score
        refine .inl ?_
        cases a
        cases m
        cases same
        cases score
        rfl
    next other =>
      constructor
      · rintro (rfl | ⟨score, -⟩)
        · exact absurd rfl other
        · exact score
      · exact fun score => .inr ⟨score, Ne.symm other⟩

theorem erase (member : String) : (s.erase member).Agrees := by
  have others := h.mem_others member
  have members : (s.erase member).members = match s.scores[member]? with
      | some old => s.members.erase ⟨member, old⟩
      | none => s.members := by
    unfold SortedSet.erase SortedSet.remove
    cases s.scores[member]? <;> rfl
  constructor
  · rw [members]
    split
    · exact h.sorted.sublist List.erase_sublist
    · exact h.sorted
  · intro a
    rw [show (s.erase member).scores[a.member]? = (s.erase member).score? a.member from rfl,
      score?_erase, members, others, h.mem_members]
    split
    next same => exact iff_of_false (fun there => there.2 same.symm) (by simp)
    next other => exact and_iff_left (Ne.symm other)

theorem dropFirst (count : Nat) : (s.dropFirst count).Agrees := by
  have whole : (s.first count ++ s.members.drop count).Nodup := by
    rw [first, List.take_append_drop]
    exact Increasing.nodup h.sorted
  constructor
  · exact h.sorted.sublist (List.drop_sublist count s.members)
  · intro a
    rw [show (s.dropFirst count).scores[a.member]? = (s.dropFirst count).score? a.member from rfl,
      score?_dropFirst]
    constructor
    · intro ha
      have ha' : a ∈ s.members := List.mem_of_mem_drop ha
      rw [if_neg, h.mem_members.1 ha']
      intro popped
      obtain ⟨b, hb, same⟩ := List.mem_map.1 popped
      have := h.eq_of_member (List.mem_of_mem_take hb) ha' same
      subst this
      exact (List.nodup_append.1 whole).2.2 b hb b ha rfl
    · intro score
      split at score
      · contradiction
      next kept =>
        have ha := h.mem_members.2 score
        rw [← List.take_append_drop count s.members, List.mem_append] at ha
        rcases ha with ha | ha
        · exact absurd (List.mem_map_of_mem ha) kept
        · exact ha

end Agrees

/-! ## A pop undone -/

variable {s t : SortedSet}

/-- Two sets whose indexes are in step are one set if they hold the same scores. -/
theorem Agrees.ext (h : s.Agrees) (h' : t.Agrees) (same : ∀ y, s.score? y = t.score? y) :
    s = t := by
  have scores : s.scores = t.scores := Std.ExtTreeMap.ext_getElem? same
  have among (m : ScoredMember) : m ∈ s.members ↔ m ∈ t.members := by
    rw [h.mem_members, h'.mem_members, same]
  have perm : s.members.Perm t.members :=
    (List.perm_ext_iff_of_nodup (Increasing.nodup h.sorted) (Increasing.nodup h'.sorted)).2 among
  have members : s.members = t.members := by
    refine perm.eq_of_pairwise (fun a b _ _ less less' => ?_) h.sorted h'.sorted
    exact absurd (ScoredMember.precedes_trans less less') a.not_precedes_self
  cases s
  cases t
  cases scores
  cases members
  rfl

theorem Agrees.insertAll (h : s.Agrees) (members : List ScoredMember) :
    (members.foldl SortedSet.insert s).Agrees := by
  induction members generalizing s with
  | nil => exact h
  | cons m members ih => exact ih (h.insert m)

/-- Inserting members at the scores that they have in another set leaves these scores,
if the others have theirs already. -/
theorem score?_insertAll {members : List ScoredMember}
    (own : ∀ m ∈ members, s.score? m.member = some m.score)
    (others : ∀ y, y ∉ members.map (·.member) → t.score? y = s.score? y) (y : String) :
    (members.foldl insert t).score? y = s.score? y := by
  induction members generalizing t with
  | nil => exact others y List.not_mem_nil
  | cons m members ih =>
    refine ih (fun a ha => own a (List.mem_cons_of_mem m ha)) fun z hz => ?_
    rw [score?_insert]
    split
    next same => rw [← same, own m List.mem_cons_self]
    next other =>
      refine others z ?_
      rw [List.map_cons, List.mem_cons, not_or]
      exact ⟨Ne.symm other, hz⟩

/-- Inserting the first members again after dropping them undoes it. -/
theorem Agrees.insertAll_dropFirst (h : s.Agrees) (count : Nat) :
    (s.first count).foldl SortedSet.insert (s.dropFirst count) = s := by
  refine ((h.dropFirst count).insertAll _).ext h (score?_insertAll ?_ ?_)
  · exact fun m hm => h.mem_members.1 (List.mem_of_mem_take hm)
  · intro y kept
    rw [score?_dropFirst, if_neg kept]

end SortedSet

end Matchmaking
