import Matchmaking.Proofs.StrictExecution

/-!
# Conditions on values of another type

Most conditions are about a type of value.  The key that such a condition looks at may
hold a value of another type, and then the condition is a *misfit*.

A condition affirms something of its key, or it *denies* what another condition affirms
(`Condition.denied?`).  A denial holds exactly if the condition that it denies does not.
An affirmation needs its key to show a text or a collection of its type, and a key that
holds another type shows none.  So an affirmation that is a misfit does not hold, and a
denial that is one does.

For commits this means: a transaction that carries an affirmation on such a key is
rejected and writes nothing, and a denial on such a key is as good as no condition
(`Transaction.commits_iff`).
-/

namespace Matchmaking

/-! ## What conditions are about -/

namespace Condition

/-- The type of value a condition is about.  Whether a key is there is about no type. -/
def type? : Condition → Option ValueType
  | keyExists _ => none
  | keyNotExists _ => none
  | stringEqual _ _ => some .string
  | hashLengthEqual _ _ => some .hash
  | listLengthEqual _ _ => some .list
  | sortedSetLonger _ _ => some .sortedSet
  | fieldExists _ _ => some .hash
  | fieldNotExists _ _ => some .hash
  | fieldEqual _ _ _ => some .hash
  | fieldNotEqual _ _ _ => some .hash

/-- The condition that a condition denies.  Affirmations deny none. -/
def denied? : Condition → Option Condition
  | keyNotExists key => some (keyExists key)
  | fieldNotExists key field => some (fieldExists key field)
  | fieldNotEqual key field value => some (fieldEqual key field value)
  | _ => none

/-- The condition denies something. -/
def Denies (c : Condition) : Prop := c.denied? ≠ none

/-- A condition denies an affirmation about the same key and type. -/
theorem of_denied {c d : Condition} (denied : c.denied? = some d) :
    d.key = c.key ∧ d.type? = c.type? ∧ ¬ d.Denies := by
  cases c with
  | keyNotExists key | fieldNotExists key field | fieldNotEqual key field value =>
    obtain rfl := Option.some.inj denied
    exact ⟨rfl, rfl, fun denies => denies rfl⟩
  | _ => contradiction

end Condition

namespace Keyspace

variable {ks : Keyspace} {c d : Condition}

/-- A denial holds exactly if what it denies does not. -/
theorem holds_denial (denied : c.denied? = some d) : ks.holds c = !ks.holds d := by
  cases c with
  | keyNotExists key =>
    obtain rfl := Option.some.inj denied
    rfl
  | fieldNotExists key field =>
    obtain rfl := Option.some.inj denied
    rw [holds, holds, Option.not_isSome]
  | fieldNotEqual key field value =>
    obtain rfl := Option.some.inj denied
    exact decide_not
  | _ => contradiction

/-! ## Misfits -/

/-- The key of a condition holds a value of another type than the condition is about. -/
def Misfit (ks : Keyspace) (c : Condition) : Prop :=
  ∃ v type, ks[c.key]? = some v ∧ c.type? = some type ∧ v.type ≠ type

/-- A key that holds a value shows a hash only if the value is one. -/
theorem type_of_hashAt? {key : Key} {v : Value} {fields : TextMap}
    (shown : ks.hashAt? key = some fields) (stored : ks[key]? = some v) : v.type = .hash := by
  rw [hashAt?, stored] at shown
  cases v with
  | hash fields => rfl
  | _ => contradiction

/-- A key that holds a value shows a list only if the value is one. -/
theorem type_of_listAt? {key : Key} {v : Value} {items : List String}
    (shown : ks.listAt? key = some items) (stored : ks[key]? = some v) : v.type = .list := by
  rw [listAt?, stored] at shown
  cases v with
  | list items => rfl
  | _ => contradiction

/-- A key that holds a value shows a sorted set only if the value is one. -/
theorem type_of_sortedSetAt? {key : Key} {v : Value} {set : SortedSet}
    (shown : ks.sortedSetAt? key = some set) (stored : ks[key]? = some v) :
    v.type = .sortedSet := by
  rw [sortedSetAt?, stored] at shown
  cases v with
  | sortedSet set => rfl
  | _ => contradiction

namespace Misfit

/-- An affirmation needs its key to show something of its type. -/
theorem not_says (h : ks.Misfit c) (affirms : ¬ c.Denies) : ¬ c.Says ks := by
  obtain ⟨v, type, stored, about, other⟩ := h
  cases c with
  | keyExists key => contradiction
  | stringEqual key value =>
    obtain rfl := Option.some.inj about
    intro same
    obtain rfl := Option.some.inj (stored.symm.trans same)
    exact other rfl
  | hashLengthEqual key length | fieldExists key field | fieldEqual key field value =>
    obtain rfl := Option.some.inj about
    rintro ⟨fields, shown, -⟩
    exact other (type_of_hashAt? shown stored)
  | listLengthEqual key length =>
    obtain rfl := Option.some.inj about
    rintro ⟨items, shown, -⟩
    exact other (type_of_listAt? shown stored)
  | sortedSetLonger key length =>
    obtain rfl := Option.some.inj about
    rintro ⟨set, shown, -⟩
    exact other (type_of_sortedSetAt? shown stored)
  | keyNotExists key | fieldNotExists key field | fieldNotEqual key field value =>
    exact absurd (Option.some_ne_none _) affirms

theorem holds_eq_false (h : ks.Misfit c) (affirms : ¬ c.Denies) : ks.holds c = false :=
  Bool.eq_false_iff.2 (mt (ks.holds_iff c).1 (h.not_says affirms))

/-- What a misfit denies is a misfit. -/
theorem denied (h : ks.Misfit c) (denied : c.denied? = some d) : ks.Misfit d := by
  obtain ⟨v, type, stored, about, other⟩ := h
  obtain ⟨sameKey, sameType, -⟩ := Condition.of_denied denied
  exact ⟨v, type, sameKey ▸ stored, sameType ▸ about, other⟩

/-- The misfits that hold are the denials. -/
theorem holds_iff_denies (h : ks.Misfit c) : ks.holds c = true ↔ c.Denies := by
  cases denied : c.denied? with
  | none =>
    have affirms : ¬ c.Denies := fun denies => denies denied
    exact iff_of_false (Bool.eq_false_iff.1 (h.holds_eq_false affirms)) affirms
  | some d =>
    have denies : c.Denies := ne_of_eq_of_ne denied (Option.some_ne_none d)
    obtain ⟨-, -, affirms⟩ := Condition.of_denied denied
    refine iff_of_true ?_ denies
    rw [holds_denial denied, (h.denied denied).holds_eq_false affirms]
    rfl

end Misfit

/-! ## Batches -/

/-- A condition that does not hold rejects its batch. -/
theorem execute_of_not_holds {b : Batch} (carried : c ∈ b.conditions) (fails : ks.holds c = false) :
    ks.execute b = (.ok (.rejected (b.conditions.map ks.holds)), ks) := by
  have passed : ¬ (b.conditions.map ks.holds).all id = true := by
    rw [all_holds]
    exact fun all => Bool.eq_false_iff.1 fails (all c carried)
  rw [execute, if_neg passed]

end Keyspace

/-! ## Commits -/

namespace Transaction

section

variable (id : Nat) {settings : Settings} {ops : List Operation}
  (staged : ∀ op ∈ ops, op.Stageable settings)

include staged

theorem commands_stageAll :
    ((empty id settings).stageAll ops).commands = Operation.allCommands ops := by
  rw [stageAll_eq (empty id settings) staged]
  exact List.nil_append _

/-- The conditions of staged operations hold exactly if the requirements do. -/
theorem conditions_hold_iff (ks : Keyspace) :
    (∀ c ∈ ((empty id settings).stageAll ops).registry.conditions, ks.holds c = true) ↔
      ∀ r ∈ Operation.allRequirements ops, r.Holds ks := by
  have conditions : ((empty id settings).stageAll ops).registry.conditions =
      (Keyspace.batchOf ops).conditions := by
    rw [stageAll_eq (empty id settings) staged]
    exact List.nil_append _
  rw [conditions, ← Keyspace.all_holds, Keyspace.holds_batchOf staged]

end

section

variable {c : Connection} (id : Nat) (settings : Settings) (ops : List Operation)
  (calm : c.database.faults.head?.join = none)

include calm

/-- A transaction is committed exactly if it was staged without an error, its conditions hold
and its commands fit. -/
theorem commits_iff :
    let tx := (empty id settings).stageAll ops
    let ks := c.database.keyspace
    (∃ commit, ((Client.commit tx).run Connection.serve c).1 = .ok commit) ↔
      tx.deferred = none ∧ (∀ condition ∈ tx.registry.conditions, ks.holds condition = true) ∧
        Keyspace.firstMismatch ks.types tx.commands = none := by
  intro tx ks
  constructor
  · rintro ⟨commit, committed⟩
    obtain ⟨staged, holds, fit, -⟩ := run_commit_ok calm committed
    refine ⟨deferred_stageAll.2 ⟨staged, rfl⟩, (conditions_hold_iff id staged ks).2 holds, ?_⟩
    rwa [commands_stageAll id staged]
  · rintro ⟨clean, holds, fit⟩
    have staged : ∀ op ∈ ops, op.Stageable settings := (deferred_stageAll.1 clean).1
    have needs := (conditions_hold_iff id staged ks).1 holds
    rw [commands_stageAll id staged] at fit
    rw [(run_commit id calm staged).1, Keyspace.execute_committed staged needs fit]
    exact ⟨_, conclude_committed id staged _⟩

/-- A condition that does not hold rejects its transaction, unless staging failed already. -/
theorem rejected_of_not_holds {condition : Condition} :
    let tx := (empty id settings).stageAll ops
    let ks := c.database.keyspace
    let run := (Client.commit tx).run Connection.serve c
    condition ∈ tx.registry.conditions → ks.holds condition = false →
      run.2.database.keyspace = ks ∧ (tx.deferred = none → ∃ rejection,
        run.1 = .error (.rejected rejection) ∧
          Blamed ks (Operation.allRequirements ops) rejection) := by
  intro tx ks run carried fails
  by_cases staged : ∀ op ∈ ops, op.Stageable settings
  · have unmet : ¬ ∀ r ∈ Operation.allRequirements ops, r.Holds ks := by
      rw [← conditions_hold_iff id staged ks]
      exact fun all => Bool.eq_false_iff.1 fails (all condition carried)
    obtain ⟨concluded, left⟩ := run_commit id calm staged
    obtain ⟨rejection, blamed, reported⟩ := conclude_rejected id staged ks
    rw [Keyspace.execute_rejected staged unmet] at concluded left
    exact ⟨left, fun _ => ⟨rejection, concluded.trans reported, blamed⟩⟩
  · obtain ⟨-, same⟩ := run_commit_unstaged c id staged
    refine ⟨congrArg (·.database.keyspace) same, fun clean => ?_⟩
    exact absurd (deferred_stageAll.1 clean).1 staged

end

end Transaction

namespace Keyspace

/-- A condition about another type of value than its key holds does not hold, unless it denies
something of a field, and then it holds.  A transaction that carries such a condition is
committed only if the condition is a denial, and then exactly if it would be committed without
it.  With any other such condition it is rejected and writes nothing, and so is a batch. -/
theorem only_denials_pass_misfits (ks : Keyspace) (condition : Condition)
    (misfit : ks.Misfit condition) :
    (ks.holds condition = true ↔ condition.Denies) ∧
    (¬ condition.Denies → ∀ b : Batch, condition ∈ b.conditions →
      ks.execute b = (.ok (.rejected (b.conditions.map ks.holds)), ks)) ∧
    ∀ (c : Connection) (id : Nat) (settings : Settings) (ops : List Operation),
      c.database.keyspace = ks → c.database.faults.head?.join = none →
      let tx := (Transaction.empty id settings).stageAll ops
      let run := (Client.commit tx).run Connection.serve c
      condition ∈ tx.registry.conditions →
        ((∃ commit, run.1 = .ok commit) ↔ condition.Denies ∧ tx.deferred = none ∧
          (∀ other ∈ tx.registry.conditions, other ≠ condition → ks.holds other = true) ∧
          firstMismatch ks.types tx.commands = none) ∧
        (¬ condition.Denies → run.2.database.keyspace = ks ∧
          (tx.deferred = none → ∃ rejection, run.1 = .error (.rejected rejection) ∧
            Blamed ks (Operation.allRequirements ops) rejection)) := by
  refine ⟨misfit.holds_iff_denies, fun affirms b carried =>
    execute_of_not_holds carried (misfit.holds_eq_false affirms), ?_⟩
  rintro c id settings ops rfl calm tx run carried
  refine ⟨?_, fun affirms => ?_⟩
  · refine (Transaction.commits_iff id settings ops calm).trans ?_
    constructor
    · rintro ⟨clean, holds, fit⟩
      exact ⟨misfit.holds_iff_denies.1 (holds condition carried), clean,
        fun other mem _ => holds other mem, fit⟩
    · rintro ⟨denies, clean, others, fit⟩
      refine ⟨clean, fun other mem => ?_, fit⟩
      by_cases same : other = condition
      · rw [same]
        exact misfit.holds_iff_denies.2 denies
      · exact others other mem same
  · exact Transaction.rejected_of_not_holds id settings ops calm carried
      (misfit.holds_eq_false affirms)

/-- The key of a queue holds a text.  A dequeue is rejected, and the members that the
transaction would put into another queue stay out of it. -/
theorem dequeue_from_text_rejected :
    let ks : Keyspace := Std.ExtTreeMap.insert ∅ (.queue "ranked") (.string "closed")
    let c : Connection := ⟨⟨ks, [], 0⟩, .default, 1⟩
    let ops : List Operation := [.enqueueMembers "casual" [⟨"p", ⟨0⟩⟩], .dequeue "ranked" 1]
    let run := (Client.commit ((Transaction.empty 1 .default).stageAll ops)).run Connection.serve c
    ks.Misfit (.sortedSetLonger (.queue "ranked") 0) ∧ run.2.database.keyspace = ks ∧
      ∃ rejection, run.1 = .error (.rejected rejection) ∧
        Blamed ks [.longEnough "ranked" 1] rejection := by
  intro ks c ops run
  have misfit : ks.Misfit (.sortedSetLonger (.queue "ranked") 0) :=
    ⟨.string "closed", .sortedSet, by decide, rfl, by decide⟩
  have carried : .sortedSetLonger (.queue "ranked") 0 ∈
      ((Transaction.empty 1 .default).stageAll ops).registry.conditions := by decide
  obtain ⟨-, -, commits⟩ := only_denials_pass_misfits ks _ misfit
  obtain ⟨-, fails⟩ := commits c 1 .default ops rfl rfl carried
  obtain ⟨left, rejected⟩ := fails fun denies => denies rfl
  exact ⟨misfit, left, rejected rfl⟩

/-- A key holds a text.  It passes for a hash without a field and for one with another text in
the field, though not for a hash without fields, and a transaction that relies on both is
committed. -/
theorem text_passes_denials :
    let ks : Keyspace := Std.ExtTreeMap.insert ∅ ⟨"k"⟩ (.string "v")
    let c : Connection := ⟨⟨ks, [], 0⟩, .default, 1⟩
    let ops : List Operation := [.requireNoField ⟨"k"⟩ "f", .requireFieldNotEqual ⟨"k"⟩ "f" "v",
      .enqueueMembers "ranked" [⟨"p", ⟨0⟩⟩]]
    ks.Misfit (.fieldNotExists ⟨"k"⟩ "f") ∧ ks.Misfit (.fieldNotEqual ⟨"k"⟩ "f" "v") ∧
      [Condition.hashLengthEqual ⟨"k"⟩ 0, .fieldNotExists ⟨"k"⟩ "f",
        .fieldNotEqual ⟨"k"⟩ "f" "v"].map ks.holds = [false, true, true] ∧
      ((Client.commit ((Transaction.empty 1 .default).stageAll ops)).run Connection.serve c).1 =
        .ok ⟨1, [.done]⟩ := by
  intro ks c ops
  have stored : ks[(⟨"k"⟩ : Key)]? = some (.string "v") := by decide
  have other : (Value.string "v").type ≠ .hash := by decide
  exact ⟨⟨_, _, stored, rfl, other⟩, ⟨_, _, stored, rfl, other⟩, by decide, by rfl⟩

end Keyspace

end Matchmaking
