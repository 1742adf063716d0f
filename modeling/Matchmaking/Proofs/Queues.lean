import Matchmaking.Proofs.Lookups
import Matchmaking.Proofs.SortedSets

/-!
# Who waits in a queue

The gateway sees a queue as members with scores (`Keyspace.Waits`).  Popping takes
members out, and putting members in adds them at their scores.  Other operations
leave queues alone.

Every queue keeps being a sorted set with its indexes in step (`Keyspace.Queues`).
So putting members into a queue never meets a value of another type.
-/

namespace Matchmaking

namespace Keyspace

/-- A member waits in a queue at a score. -/
def Waits (ks : Keyspace) (queue member : String) (score : Score) : Prop :=
  ∃ set, ks.sortedSetAt? (.queue queue) = some set ∧ set.score? member = some score

/-- Every queue is a sorted set with its indexes in step. -/
def Queues (ks : Keyspace) : Prop :=
  ∀ queue, ∃ set, ks.sortedSetAt? (.queue queue) = some set ∧ set.Agrees

theorem queues_empty : Queues ∅ := by
  intro queue
  refine ⟨.empty, ?_, SortedSet.agrees_empty⟩
  rw [sortedSetAt?, Std.ExtTreeMap.getElem?_empty]

theorem sortedSetAt?_congr {ks ks' : Keyspace} {key : Key} (h : ks'[key]? = ks[key]?) :
    ks'.sortedSetAt? key = ks.sortedSetAt? key := by
  rw [sortedSetAt?, h]
  rfl

/-- A queue shows what an edit of it leaves. -/
theorem sortedSetAt?_editSet {ks : Keyspace} {key : Key} {f : SortedSet → SortedSet}
    {set : SortedSet} (shown : ks.sortedSetAt? key = some set) (agrees : (f set).Agrees) :
    (ks.editSet key f).sortedSetAt? key = some (f set) := by
  rw [editSet, shown]
  dsimp only
  rw [sortedSetAt?, getElem?_put, if_pos rfl]
  cases left : (Value.sortedSet (f set)).isEmptyCollection with
  | false => rfl
  | true => exact congrArg some (agrees.eq_empty left).symm

/-- An edit of one queue that keeps its indexes in step. -/
theorem Queues.editSet {ks : Keyspace} (h : ks.Queues) {f : SortedSet → SortedSet}
    (agrees : ∀ set : SortedSet, set.Agrees → (f set).Agrees) (queue : String) :
    Queues (ks.editSet (.queue queue) f) := by
  intro q
  obtain ⟨set, shown, indexed⟩ := h q
  by_cases same : queue = q
  · subst same
    exact ⟨f set, sortedSetAt?_editSet shown (agrees set indexed), agrees set indexed⟩
  · refine ⟨set, ?_, indexed⟩
    rw [sortedSetAt?_congr (getElem?_editSet_of_ne (mt Key.queue_inj.1 same)), shown]

/-- After an edit of one queue the members of the others wait as before. -/
theorem waits_editSet {ks : Keyspace} (h : ks.Queues) {f : SortedSet → SortedSet}
    (agrees : ∀ set : SortedSet, set.Agrees → (f set).Agrees) (queue : String) :
    ∃ set, ks.sortedSetAt? (.queue queue) = some set ∧ set.Agrees ∧ ∀ q member score,
      Waits (ks.editSet (.queue queue) f) q member score ↔
        if q = queue then (f set).score? member = some score else ks.Waits q member score := by
  obtain ⟨set, shown, indexed⟩ := h queue
  refine ⟨set, shown, indexed, fun q member score => ?_⟩
  split
  next same =>
    subst same
    rw [Waits, sortedSetAt?_editSet shown (agrees set indexed)]
    simp
  next other =>
    rw [Waits, sortedSetAt?_congr (getElem?_editSet_of_ne (mt Key.queue_inj.1 (Ne.symm other)))]
    rfl

theorem waits_congr {ks ks' : Keyspace} {queue : String}
    (h : ks'[Key.queue queue]? = ks[Key.queue queue]?) (member : String) (score : Score) :
    ks'.Waits queue member score ↔ ks.Waits queue member score := by
  rw [Waits, sortedSetAt?_congr h]
  rfl

/-- A member that is put into a queue waits there at its score and nowhere else in
the queue. -/
theorem waits_insert {ks : Keyspace} (h : ks.Queues) (queue : String) (m : ScoredMember)
    (q member : String) (score : Score) :
    Waits (ks.editSet (.queue queue) (·.insert m)) q member score ↔
      if q = queue ∧ member = m.member then score = m.score else ks.Waits q member score := by
  obtain ⟨set, shown, -, waits⟩ := waits_editSet h (fun _ agrees => agrees.insert m) queue
  rw [waits]
  by_cases here : q = queue
  · subst here
    by_cases same : member = m.member
    · simp [same, eq_comm]
    · simp [same, Ne.symm same, Waits, shown]
  · simp [here]

/-- A member that is removed from a queue does not wait there, and the others wait as
before. -/
theorem waits_erase {ks : Keyspace} (h : ks.Queues) (queue removed q member : String)
    (score : Score) :
    Waits (ks.editSet (.queue queue) (·.erase removed)) q member score ↔
      ¬ (q = queue ∧ member = removed) ∧ ks.Waits q member score := by
  obtain ⟨set, shown, -, waits⟩ := waits_editSet h (fun _ agrees => agrees.erase removed) queue
  rw [waits]
  by_cases here : q = queue
  · subst here
    by_cases same : member = removed
    · simp [same]
    · simp [same, Ne.symm same, Waits, shown]
  · simp [here]

/-- A key that shows a sorted set is absent or of that type. -/
theorem types_shown {ks : Keyspace} {key : Key} {set : SortedSet}
    (shown : ks.sortedSetAt? key = some set) :
    ks.types key = none ∨ ks.types key = some .sortedSet := by
  unfold types
  unfold sortedSetAt? at shown
  cases stored : ks[key]? with
  | none => exact .inl rfl
  | some v =>
    rw [stored] at shown
    cases v with
    | sortedSet _ => exact .inr rfl
    | _ => contradiction

/-- The members of a queue that commands put into it are of no type that keeps other
members out. -/
theorem firstMismatch_addMembers {ts : Types} {key : Key}
    (typed : ts key = none ∨ ts key = some .sortedSet) (members : List ScoredMember) :
    firstMismatch ts (members.map (.addMember key)) = none := by
  induction members generalizing ts with
  | nil => rfl
  | cons m members ih =>
    have fits : mismatch? (ts key) (.addMember key m) = none := by
      rcases typed with typed | typed <;> rw [typed] <;> rfl
    rw [List.map_cons, firstMismatch, show (Command.addMember key m).key = key from rfl, fits]
    exact ih (.inr (if_pos rfl))

end Keyspace

namespace Operation

variable {ks : Keyspace}

theorem waits_allEffects {ops : List Operation} (h : ∀ op ∈ ops, op.Spares Key.queueNamespace)
    (ks : Keyspace) (queue member : String) (score : Score) :
    (allEffects ks ops).Waits queue member score ↔ ks.Waits queue member score :=
  Keyspace.waits_congr (getElem?_allEffects h ks queue) member score

theorem queues_allEffects {ops : List Operation} (h : ∀ op ∈ ops, op.Spares Key.queueNamespace)
    (queues : ks.Queues) : (allEffects ks ops).Queues := by
  intro queue
  obtain ⟨set, shown, agrees⟩ := queues queue
  exact ⟨set, (Keyspace.sortedSetAt?_congr (getElem?_allEffects h ks queue)).trans shown, agrees⟩

theorem queues_enqueueMembers (h : ks.Queues) (queue : String) (members : List ScoredMember) :
    ((enqueueMembers queue members).effect ks).Queues := by
  induction members generalizing ks with
  | nil => exact h
  | cons m members ih => exact ih (h.editSet (fun _ agrees => agrees.insert m) queue)

/-- A queue shows the members that are put into it. -/
theorem sortedSetAt?_enqueueMembers {queue : String} {set : SortedSet}
    (shown : ks.sortedSetAt? (.queue queue) = some set) (agrees : set.Agrees)
    (members : List ScoredMember) :
    ((enqueueMembers queue members).effect ks).sortedSetAt? (.queue queue) =
      some (members.foldl SortedSet.insert set) := by
  induction members generalizing ks set with
  | nil => exact shown
  | cons m members ih =>
    exact ih (Keyspace.sortedSetAt?_editSet shown (agrees.insert m)) (agrees.insert m)

/-- Members that are put into a queue wait there at their scores, and the others wait
where they waited. -/
theorem waits_enqueueMembers (h : ks.Queues) {queue : String} {members : List ScoredMember}
    (once : ∀ m ∈ members, ∀ m' ∈ members, m.member = m'.member → m = m')
    (q member : String) (score : Score) :
    ((enqueueMembers queue members).effect ks).Waits q member score ↔
      if q = queue ∧ member ∈ members.map (·.member) then ⟨member, score⟩ ∈ members
      else ks.Waits q member score := by
  induction members generalizing ks with
  | nil => simp [effect]
  | cons m members ih =>
    have once' : ∀ m ∈ members, ∀ m' ∈ members, m.member = m'.member → m = m' :=
      fun a ha b hb => once a (List.mem_cons_of_mem m ha) b (List.mem_cons_of_mem m hb)
    have first := Keyspace.waits_insert h queue m q member score
    refine (ih (h.editSet (fun _ agrees => agrees.insert m) queue) once').trans ?_
    by_cases later : q = queue ∧ member ∈ members.map (·.member)
    · rw [if_pos later, if_pos ⟨later.1, List.mem_cons_of_mem _ later.2⟩]
      refine ⟨List.mem_cons_of_mem m, fun there => ?_⟩
      rcases List.mem_cons.1 there with rfl | there
      · obtain ⟨m', hm', same⟩ := List.mem_map.1 later.2
        have again := once _ List.mem_cons_self m' (List.mem_cons_of_mem _ hm') same.symm
        exact again ▸ hm'
      · exact there
    · rw [if_neg later, first]
      by_cases now : q = queue ∧ member = m.member
      · rw [if_pos now, if_pos ⟨now.1, now.2 ▸ List.mem_cons_self⟩]
        obtain ⟨rfl, rfl⟩ := now
        constructor
        · rintro rfl
          exact List.mem_cons_self
        · intro there
          rcases List.mem_cons.1 there with same | there
          · exact congrArg ScoredMember.score same
          · exact absurd ⟨rfl, List.mem_map.2 ⟨_, there, rfl⟩⟩ later
      · rw [if_neg now, if_neg]
        rintro ⟨here, among⟩
        rcases List.mem_cons.1 among with same | among
        · exact now ⟨here, same⟩
        · exact later ⟨here, among⟩

theorem allCommands_enqueueMembers (queue : String) (members : List ScoredMember) :
    allCommands [enqueueMembers queue members] = members.map (.addMember (.queue queue)) := by
  rw [allCommands, List.flatMap_singleton, commands]

/-- Members can be put into a queue that shows a sorted set. -/
theorem firstMismatch_enqueueMembers {queue : String} {set : SortedSet}
    (shown : ks.sortedSetAt? (.queue queue) = some set) (members : List ScoredMember) :
    Keyspace.firstMismatch ks.types (allCommands [enqueueMembers queue members]) = none := by
  rw [allCommands_enqueueMembers]
  exact Keyspace.firstMismatch_addMembers (Keyspace.types_shown shown) members

theorem queues_dequeue (h : ks.Queues) (queue : String) (count : Nat) :
    ((dequeue queue count).effect ks).Queues :=
  h.editSet (fun _ agrees => agrees.dropFirst count) queue

/-- The popped members waited in the queue at their scores, and no other members stop
waiting. -/
theorem waits_dequeue (h : ks.Queues) (queue : String) (count : Nat) :
    ∃ popped, ks.answer (.popFirst (.queue queue) count) = .popped popped ∧
      (∀ m ∈ popped, ks.Waits queue m.member m.score) ∧
      (∀ m ∈ popped, ∀ m' ∈ popped, m.member = m'.member → m = m') ∧
      ∀ q member score, ((dequeue queue count).effect ks).Waits q member score ↔
        ks.Waits q member score ∧ ¬ (q = queue ∧ member ∈ popped.map (·.member)) := by
  obtain ⟨set, shown, agrees, waits⟩ :=
    Keyspace.waits_editSet h (fun _ agrees => agrees.dropFirst count) queue
  have among {m : ScoredMember} (hm : m ∈ set.first count) : m ∈ set.members :=
    List.mem_of_mem_take hm
  refine ⟨set.first count, ?_, fun m hm => ⟨set, shown, agrees.mem_members.1 (among hm)⟩,
    fun m hm m' hm' => agrees.eq_of_member (among hm) (among hm'), fun q member score => ?_⟩
  · rw [Keyspace.answer, shown]
    rfl
  · refine (waits q member score).trans ?_
    by_cases here : q = queue
    · subst here
      rw [if_pos rfl, SortedSet.score?_dropFirst]
      by_cases popped : member ∈ (set.first count).map (·.member)
      · simp [popped]
      · simp [popped, Keyspace.Waits, shown]
    · simp [here]

end Operation

end Matchmaking
