import Matchmaking.Proofs.StrictExecution

/-!
# What the type check turns down

The type check follows the types of keys through a batch and runs nothing.  It is
compared with the commands run *one by one*, each as a batch of its own
(`Keyspace.oneByOne`), where every command is checked against the key as it is.

Both see the same types, but for one thing.  A removal that takes the last element of a
collection removes the key, and a command of any type may follow.  The check goes on
with the type of the collection.  So of each key the check knows its type, or it knows
the type of a collection that *ran empty* there (`Keyspace.Foresees`).  Each command
keeps this (`Foresees.step`), and a batch that is turned down either holds a command
that fails by itself too, or comes behind a collection that ran empty
(`mismatch_real_or_emptied`).
-/

namespace Matchmaking

/-- The command takes elements out of a collection. -/
def Command.Removes : Command → Prop
  | setString _ _ => False
  | delete _ => False
  | addMember _ _ => False
  | removeMember _ _ => True
  | popFirst _ _ => True
  | setFields _ _ => False
  | deleteField _ _ => True

namespace Keyspace

/-! ## Commands one by one -/

/-- Executes commands in order, each as a batch of its own, up to the first that
fails. -/
def oneByOne (ks : Keyspace) : List Command → Except StoreError (List Outcome) × Keyspace
  | [] => (.ok [], ks)
  | command :: commands =>
    match ks.execute ⟨[], [command]⟩ with
    | (.ok outcome, ks) =>
      let (outcomes, ks) := ks.oneByOne commands
      (outcomes.map (outcome :: ·), ks)
    | (.error e, ks) => (.error e, ks)

section

variable {ks : Keyspace} {command : Command} {type : ValueType}

/-- A command that fits its key is executed by itself. -/
theorem execute_fitting (fits : ks.Fits command) :
    ks.execute ⟨[], [command]⟩ = (.ok (.committed [ks.answer command]), ks.edit command) := by
  have pass : mismatch? (ks.types command.key) command = none := by
    unfold types mismatch?
    cases stored : ks[command.key]? with
    | none => rfl
    | some v =>
      cases required : requiredType command with
      | none => rfl
      | some type => exact if_pos (fits v stored type required)
  simp only [execute, List.map_nil, List.all_nil, if_true, firstMismatch, pass, applyAll_eq]
  rfl

/-- A command that meets a value of another type fails by itself. -/
theorem execute_misfit {v : Value} (stored : ks[command.key]? = some v)
    (required : requiredType command = some type) (other : v.type ≠ type) :
    ks.execute ⟨[], [command]⟩ = (.error (.wrongType command.key type), ks) := by
  have misfit : mismatch? (ks.types command.key) command = some type := by
    simp only [types, stored, Option.map_some, mismatch?, required, if_neg other]
  simp only [execute, List.map_nil, List.all_nil, if_true, firstMismatch, misfit]

/-- Commands that did not fail are followed by the others. -/
theorem oneByOne_append {front rest : List Command} {outcomes : List Outcome}
    (ran : (ks.oneByOne front).1 = .ok outcomes) :
    ks.oneByOne (front ++ rest) =
      (((ks.oneByOne front).2.oneByOne rest).1.map (outcomes ++ ·),
        ((ks.oneByOne front).2.oneByOne rest).2) := by
  induction front generalizing ks outcomes with
  | nil =>
    obtain rfl := Except.ok.inj ran
    change ks.oneByOne rest = (Except.map id (ks.oneByOne rest).1, (ks.oneByOne rest).2)
    rw [Except.map_id]
    rfl
  | cons command front ih =>
    rw [oneByOne] at ran
    rw [List.cons_append, oneByOne, oneByOne]
    split at ran
    next outcome after _ =>
      dsimp only at ran ⊢
      cases here : (after.oneByOne front).1 with
      | error e =>
        rw [here] at ran
        contradiction
      | ok others =>
        rw [here] at ran
        obtain rfl := Except.ok.inj ran
        rw [ih here]
        refine Prod.ext ?_ rfl
        cases ((after.oneByOne front).2.oneByOne rest).1 <;> rfl
    next => contradiction

/-- One more command that fits. -/
theorem oneByOne_concat {front : List Command} {outcomes : List Outcome}
    (ran : (ks.oneByOne front).1 = .ok outcomes) (fits : (ks.oneByOne front).2.Fits command) :
    (∃ outcomes, (ks.oneByOne (front ++ [command])).1 = .ok outcomes) ∧
      (ks.oneByOne (front ++ [command])).2 = (ks.oneByOne front).2.edit command := by
  rw [oneByOne_append ran, oneByOne, execute_fitting fits]
  exact ⟨⟨_, rfl⟩, rfl⟩

/-- A command that meets a value of another type ends the commands. -/
theorem oneByOne_misfit {front rest : List Command} {outcomes : List Outcome} {v : Value}
    (ran : (ks.oneByOne front).1 = .ok outcomes)
    (stored : (ks.oneByOne front).2[command.key]? = some v)
    (required : requiredType command = some type) (other : v.type ≠ type) :
    ks.oneByOne (front ++ command :: rest) =
      (.error (.wrongType command.key type), (ks.oneByOne front).2) := by
  rw [oneByOne_append ran, oneByOne, execute_misfit stored required other]
  rfl

/-! ## Keys that commands leave absent -/

/-- An edited sorted set with a member is there. -/
theorem editSet_present {key : Key} {f : SortedSet → SortedSet}
    (fits : ∀ v, ks[key]? = some v → v.type = .sortedSet)
    (filled : ∀ set, (Value.sortedSet (f set)).isEmptyCollection = false) :
    (ks.editSet key f)[key]? ≠ none := by
  obtain ⟨set, shown⟩ := sortedSetAt?_of_type fits
  simp [editSet, shown, filled]

/-- An edited hash with a field is there. -/
theorem editHash_present {key : Key} {f : TextMap → TextMap}
    (fits : ∀ v, ks[key]? = some v → v.type = .hash)
    (filled : ∀ fields, (Value.hash (f fields)).isEmptyCollection = false) :
    (ks.editHash key f)[key]? ≠ none := by
  obtain ⟨fields, shown, -⟩ := addressHash_of_type key fits
  simp [editHash, shown, filled]

/-- A command that leaves its key absent deletes it, or keeps the tracked type.  Then it
is a removal or does nothing. -/
theorem typeAfter_of_absent (fits : ks.Fits command)
    (absent : (ks.edit command)[command.key]? = none) (current : Option ValueType) :
    typeAfter current command = none ∨
      typeAfter current command = current ∧ (command.Removes ∨ ks.edit command = ks) := by
  cases command with
  | setString key text => simp [edit, Command.key] at absent
  | delete key => exact .inl rfl
  | addMember key member =>
    exact absurd absent (editSet_present (fun v stored => fits v stored _ rfl)
      fun set => isEmptyCollection_insert set member)
  | removeMember key member => exact .inr ⟨rfl, .inl trivial⟩
  | popFirst key count => exact .inr ⟨rfl, .inl trivial⟩
  | setFields key updates =>
    cases updates with
    | nil => exact .inr ⟨rfl, .inr rfl⟩
    | cons update updates =>
      exact absurd absent (editHash_present (fun v stored => fits v stored _ rfl)
        fun fields => isEmptyCollection_setAll fields update updates)
  | deleteField key field => exact .inr ⟨rfl, .inl trivial⟩

end

/-! ## What the check foresees -/

/-- A removal among the commands took the last element of a collection of the type, and
nothing was put at the key behind it. -/
def RanEmpty (ks : Keyspace) (commands : List Command) (key : Key) (type : ValueType) : Prop :=
  ∃ first removal later, commands = first ++ removal :: later ∧
    removal.Removes ∧ removal.key = key ∧
    (∃ v, (ks.oneByOne first).2[key]? = some v ∧ v.type = type) ∧
    ∀ more rest, later = more ++ rest →
      (ks.oneByOne (first ++ removal :: more)).2[key]? = none

section

variable {ks : Keyspace} {front : List Command} {command : Command} {key : Key} {type : ValueType}

/-- Where a collection ran empty, the key is absent. -/
theorem RanEmpty.absent (empty : RanEmpty ks front key type) :
    (ks.oneByOne front).2[key]? = none := by
  obtain ⟨first, removal, later, rfl, -, -, -, gone⟩ := empty
  exact gone later [] (List.append_nil later).symm

/-- A command that leaves the key absent changes nothing about it. -/
theorem RanEmpty.concat (empty : RanEmpty ks front key type)
    (absent : (ks.oneByOne (front ++ [command])).2[key]? = none) :
    RanEmpty ks (front ++ [command]) key type := by
  obtain ⟨first, removal, later, rfl, removes, here, filled, gone⟩ := empty
  refine ⟨first, removal, later ++ [command], by simp, removes, here, filled, ?_⟩
  intro more rest split
  rcases List.eq_nil_or_concat rest with rfl | ⟨rest, last, rfl⟩
  · rw [List.append_nil] at split
    subst split
    simpa using absent
  · rw [List.concat_eq_append, ← List.append_assoc] at split
    exact gone more rest (List.append_inj' split rfl).1

/-- A removal that leaves its key absent emptied what was there. -/
theorem RanEmpty.removal {v : Value} (removes : command.Removes)
    (stored : (ks.oneByOne front).2[command.key]? = some v)
    (absent : (ks.oneByOne (front ++ [command])).2[command.key]? = none) :
    RanEmpty ks (front ++ [command]) command.key v.type := by
  refine ⟨front, command, [], rfl, removes, rfl, ⟨v, stored, rfl⟩, fun more rest split => ?_⟩
  obtain ⟨rfl, rfl⟩ := List.append_eq_nil_iff.1 split.symm
  exact absent

end

/-- The tracked types of a batch, where commands of it have run: of each key its type, or
the type of a collection that ran empty there. -/
structure Foresees (ks : Keyspace) (front : List Command) (ts : Types) : Prop where
  /-- The commands ran. -/
  ran : ∃ outcomes, (ks.oneByOne front).1 = .ok outcomes
  /-- The types are those of the keys or of collections that ran empty. -/
  types : ∀ key, ts key = (ks.oneByOne front).2.types key ∨
    ∃ type, ts key = some type ∧ RanEmpty ks front key type

theorem foresees_nil (ks : Keyspace) : Foresees ks [] ks.types :=
  ⟨⟨[], rfl⟩, fun _ => .inl rfl⟩

namespace Foresees

variable {ks : Keyspace} {front : List Command} {ts : Types}

/-- A key that is there has its tracked type. -/
theorem tracks (h : Foresees ks front ts) : Tracks ts (ks.oneByOne front).2 := by
  intro key v stored
  rcases h.types key with same | ⟨type, -, empty⟩
  · rw [same]
    exact tracks_types _ key v stored
  · rw [empty.absent] at stored
    contradiction

/-- A command that passes the check runs, and the types behind it are foreseen. -/
theorem step (h : Foresees ks front ts) {command : Command}
    (pass : mismatch? (ts command.key) command = none) :
    Foresees ks (front ++ [command])
      (ts.set command.key (typeAfter (ts command.key) command)) := by
  obtain ⟨outcomes, ran⟩ := h.ran
  have fits : (ks.oneByOne front).2.Fits command := h.tracks.fits pass
  obtain ⟨ran', after⟩ := oneByOne_concat ran fits
  have tracks' := h.tracks.edit pass
  rw [← after] at tracks'
  refine ⟨ran', fun key => ?_⟩
  cases stored : (ks.oneByOne (front ++ [command])).2[key]? with
  | some v =>
    refine .inl ((tracks' key v stored).trans ?_)
    rw [Keyspace.types, stored, Option.map_some]
  | none =>
    have nothing : (ks.oneByOne (front ++ [command])).2.types key = none := by
      rw [Keyspace.types, stored, Option.map_none]
    by_cases here : key = command.key
    · subst here
      rw [Types.set, if_pos rfl, nothing]
      rcases typeAfter_of_absent fits (after ▸ stored) (ts command.key) with deleted | ⟨same, how⟩
      · exact .inl deleted
      · -- The check keeps the type: it was foreseen before, or the removal has just
        -- emptied what was there.
        rw [same]
        cases before : (ks.oneByOne front).2[command.key]? with
        | none =>
          rcases h.types command.key with known | ⟨type, known, empty⟩
          · refine .inl (known.trans ?_)
            rw [Keyspace.types, before, Option.map_none]
          · exact .inr ⟨type, known, empty.concat stored⟩
        | some v =>
          rcases how with removes | idle
          · exact .inr ⟨v.type, h.tracks _ v before, .removal removes before stored⟩
          · rw [after, idle, before] at stored
            contradiction
    · rw [Types.set, if_neg here, nothing]
      rw [after, getElem?_edit_of_ne (Ne.symm here)] at stored
      rcases h.types key with known | ⟨type, known, empty⟩
      · refine .inl (known.trans ?_)
        rw [Keyspace.types, stored, Option.map_none]
      · refine .inr ⟨type, known, empty.concat ?_⟩
        rw [after, getElem?_edit_of_ne (Ne.symm here), stored]

/-- The check blames the first command that does not fit what is foreseen. -/
theorem blames (h : Foresees ks front ts) {commands : List Command} {key : Key}
    {type : ValueType} (misfit : firstMismatch ts commands = some (key, type)) :
    ∃ more command rest ts', commands = more ++ command :: rest ∧
      Foresees ks (front ++ more) ts' ∧ command.key = key ∧
      mismatch? (ts' key) command = some type := by
  induction commands generalizing front ts with
  | nil => contradiction
  | cons command commands ih =>
    rw [firstMismatch] at misfit
    split at misfit
    next expected blamed =>
      obtain ⟨rfl, rfl⟩ := Prod.mk.inj (Option.some.inj misfit)
      refine ⟨[], command, commands, ts, rfl, ?_, rfl, blamed⟩
      rw [List.append_nil]
      exact h
    next pass =>
      obtain ⟨more, blamed, rest, ts', rfl, foreseen, here⟩ := ih (h.step pass) misfit
      refine ⟨command :: more, blamed, rest, ts', rfl, ?_, here⟩
      rwa [List.append_assoc, List.singleton_append] at foreseen

end Foresees

theorem mismatch?_eq_some {current : Option ValueType} {command : Command} {type : ValueType}
    (misfit : mismatch? current command = some type) :
    requiredType command = some type ∧ ∃ found, current = some found ∧ found ≠ type := by
  unfold mismatch? at misfit
  split at misfit
  next found expected required =>
    split at misfit
    next => contradiction
    next other =>
      obtain rfl := Option.some.inj misfit
      exact ⟨required, found, rfl, other⟩
  next => contradiction

/-- A batch that is turned down for a type holds a command that needs the type.  Up to it
the commands run one by one.  Then either the key holds a value of another type, and the
command fails by itself as well, or a collection of another type ran empty at the key. -/
theorem mismatch_real_or_emptied (ks : Keyspace) (commands : List Command) {key : Key}
    {type : ValueType}
    (failed : (ks.execute ⟨[], commands⟩).1 = .error (.wrongType key type)) :
    ∃ front command rest, commands = front ++ command :: rest ∧
      command.key = key ∧ requiredType command = some type ∧
      (∃ outcomes, (ks.oneByOne front).1 = .ok outcomes) ∧
      ((∃ v, (ks.oneByOne front).2[key]? = some v ∧ v.type ≠ type ∧
          ks.oneByOne commands = (.error (.wrongType key type), (ks.oneByOne front).2)) ∨
        ∃ emptied, emptied ≠ type ∧ RanEmpty ks front key emptied) := by
  have misfit : firstMismatch ks.types commands = some (key, type) := by
    simp only [execute, List.map_nil, List.all_nil, if_true] at failed
    split at failed
    next found expected blamed =>
      injection failed with failed
      injection failed with same same'
      rw [blamed, same, same']
    next => contradiction
  obtain ⟨front, command, rest, ts, rfl, foreseen, rfl, blamed⟩ :=
    (foresees_nil ks).blames misfit
  rw [List.nil_append] at foreseen
  obtain ⟨required, found, current, other⟩ := mismatch?_eq_some blamed
  obtain ⟨outcomes, ran⟩ := foreseen.ran
  refine ⟨front, command, rest, rfl, rfl, required, ⟨outcomes, ran⟩, ?_⟩
  rcases foreseen.types command.key with same | ⟨emptied, known, empty⟩
  · obtain ⟨v, stored, rfl⟩ := Option.map_eq_some_iff.1 (same.symm.trans current)
    exact .inl ⟨v, stored, other, oneByOne_misfit ran stored required other⟩
  · obtain rfl := Option.some.inj (known.symm.trans current)
    exact .inr ⟨emptied, other, empty⟩

/-- A member is removed from a queue, and another key of the batch holds a text where a
member is added.  The batch is turned down, and one by one the addition fails. -/
theorem addition_to_text_fails :
    let ks : Keyspace := Std.ExtTreeMap.insert
      (Std.ExtTreeMap.insert ∅ (.queue "ranked") (.sortedSet (SortedSet.empty.insert ⟨"p", ⟨0⟩⟩)))
      (.queue "casual") (.string "closed")
    let commands : List Command :=
      [.removeMember (.queue "ranked") "p", .addMember (.queue "casual") ⟨"p", ⟨0⟩⟩]
    (ks.execute ⟨[], commands⟩).1 = .error (.wrongType (.queue "casual") .sortedSet) ∧
      (ks.oneByOne commands).1 = .error (.wrongType (.queue "casual") .sortedSet) := by
  intro ks commands
  have failed : (ks.execute ⟨[], commands⟩).1 =
      .error (.wrongType (.queue "casual") .sortedSet) := by rfl
  refine ⟨failed, ?_⟩
  obtain ⟨front, command, rest, split, -, -, -, real | ⟨emptied, -, empty⟩⟩ :=
    mismatch_real_or_emptied ks commands failed
  · obtain ⟨v, -, -, fails⟩ := real
    exact congrArg Prod.fst fails
  · -- No removal of the batch addresses the key.
    obtain ⟨first, removal, later, rfl, removes, here, -⟩ := empty
    have among : removal ∈ commands := by simp [split]
    simp only [commands, List.mem_cons, List.not_mem_nil, or_false] at among
    rcases among with rfl | rfl
    · exact absurd here (by decide)
    · exact removes.elim

/-- The last member of a queue is removed and its key then gets fields.  By themselves both
commands are executed, and as one batch they are turned down. -/
theorem emptied_key_turned_down :
    let ks : Keyspace := Std.ExtTreeMap.insert ∅ ⟨"k"⟩
      (.sortedSet (SortedSet.empty.insert ⟨"m", ⟨0⟩⟩))
    let commands : List Command := [.removeMember ⟨"k"⟩ "m", .setFields ⟨"k"⟩ [("f", "v")]]
    ks.Tidy ∧ (ks.execute ⟨[], commands⟩).1 = .error (.wrongType ⟨"k"⟩ .hash) ∧
      (ks.oneByOne commands).1 = .ok [.committed [.done], .committed [.done]] := by
  intro ks commands
  refine ⟨tidy_empty.insert (isEmptyCollection_insert _ _) _, ?_, ?_⟩
  · rfl
  · rfl

end Keyspace

end Matchmaking
