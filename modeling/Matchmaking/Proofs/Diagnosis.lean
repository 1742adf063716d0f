import Matchmaking.Proofs.Commit

/-!
# What a registry is told and whom it blames

Conditions are attached to a registry, taken out of it and answered, in any order and any
number of times (`Registry.Call`).

* Each condition is taken out once, in the order in which they were attached
  (`taken_afterAll`).
* An answer counts for the attachments that it is long enough for, and the last one that
  counts decides.  An attachment keeps what it had through all other calls
  (`getElem?_afterAll`).
* The diagnosis searches the attachments once for each concern.  That is the same as
  looking for the least of the failed attachments, where concerns decide and positions
  decide between equal ones (`Registry.Least`).  It does not matter how many concerns
  there are, only that the search goes through them in order (`least_of_search`).
-/

namespace Matchmaking

namespace Registry

/-! ## Calls -/

/-- What is done to a registry. -/
inductive Call where
  /-- A condition is attached. -/
  | attach (demand : Demand)
  /-- The conditions are taken out. -/
  | take
  /-- A store answers. -/
  | record (held : List Bool)

/-- The registry after a call. -/
def after (r : Registry) : Call → Registry
  | .attach d => r.attach d.concern d.label d.condition
  | .take => r.take.2
  | .record held => r.recordAnswers held

/-- The registry after calls in order. -/
def afterAll (r : Registry) (calls : List Call) : Registry := calls.foldl after r

/-- The conditions that calls take out, in order. -/
def taken (r : Registry) : List Call → List Condition
  | [] => []
  | .take :: calls => r.take.1 ++ r.take.2.taken calls
  | .attach d :: calls => (r.after (.attach d)).taken calls
  | .record held :: calls => (r.after (.record held)).taken calls

/-- What a call attaches. -/
def Call.demand? : Call → Option Demand
  | .attach d => some d
  | .take => none
  | .record _ => none

/-- What calls attach, in order. -/
def attached (calls : List Call) : List Demand := calls.filterMap Call.demand?

/-- What a call answers to the attachment at a position. -/
def Call.answer? (i : Nat) : Call → Option Bool
  | .attach _ => none
  | .take => none
  | .record held => held[i]?

/-- The last answer to the attachment at a position. -/
def lastAnswer (i : Nat) (calls : List Call) : Option Bool :=
  (calls.filterMap (Call.answer? i)).getLast?

theorem lastAnswer_cons (i : Nat) (c : Call) (calls : List Call) :
    lastAnswer i (c :: calls) = (lastAnswer i calls).or (c.answer? i) := by
  unfold lastAnswer
  rw [List.filterMap_cons]
  cases c.answer? i with
  | none => exact (Option.or_none).symm
  | some held =>
    rw [List.getLast?_cons]
    cases (calls.filterMap (Call.answer? i)).getLast? <;> rfl

/-! ## What calls leave -/

/-- What is taken out and what is left are the conditions in the order in which they were
attached. -/
theorem taken_afterAll (r : Registry) (calls : List Call) :
    r.taken calls ++ (r.afterAll calls).conditions =
      r.conditions ++ (attached calls).map Demand.condition := by
  induction calls generalizing r with
  | nil => exact (List.append_nil r.conditions).symm
  | cons c calls ih =>
    have step := ih (r.after c)
    cases c with
    | attach d => exact step.trans (List.append_assoc r.conditions [d.condition] _)
    | take =>
      rw [taken, List.append_assoc]
      exact congrArg (r.conditions ++ ·) step
    | record held => exact step

theorem getElem?_answer (as : List Attachment) (held : List Bool) (i : Nat) :
    (answer as held)[i]? = as[i]?.map fun a => { a with held := held[i]?.or a.held } := by
  induction as generalizing held i with
  | nil => cases held <;> rfl
  | cons a as ih =>
    cases held with
    | nil =>
      show (a :: as)[i]? = _
      exact Option.map_id'.symm
    | cons first held =>
      cases i with
      | zero => rfl
      | succ i => exact ih held i

theorem length_answer (as : List Attachment) (held : List Bool) :
    (answer as held).length = as.length := by
  induction as generalizing held with
  | nil => cases held <;> rfl
  | cons a as ih =>
    cases held with
    | nil => rfl
    | cons first held => exact congrArg Nat.succ (ih held)

/-- A call leaves an attachment where it is, and an answer may replace what was known of
it. -/
theorem getElem?_after {r : Registry} {i : Nat} {a : Attachment}
    (there : r.attachments[i]? = some a) (c : Call) :
    (r.after c).attachments[i]? = some { a with held := (c.answer? i).or a.held } := by
  cases c with
  | attach d =>
    have position : i < r.attachments.length := (List.getElem?_eq_some_iff.1 there).1
    exact (List.getElem?_append_left position).trans there
  | take => exact there
  | record held =>
    refine (getElem?_answer r.attachments held i).trans ?_
    rw [there]
    rfl

/-- After calls an attachment has its last answer, or what it had. -/
theorem getElem?_afterAll {r : Registry} {i : Nat} {a : Attachment}
    (there : r.attachments[i]? = some a) (calls : List Call) :
    (r.afterAll calls).attachments[i]? =
      some { a with held := (lastAnswer i calls).or a.held } := by
  induction calls generalizing r a with
  | nil => exact there
  | cons c calls ih =>
    refine (ih (getElem?_after there c)).trans ?_
    rw [lastAnswer_cons, Option.or_assoc]

theorem length_afterAll (r : Registry) (calls : List Call) :
    (r.afterAll calls).attachments.length = r.attachments.length + (attached calls).length := by
  induction calls generalizing r with
  | nil => rfl
  | cons c calls ih =>
    refine (ih (r.after c)).trans ?_
    cases c with
    | attach d =>
      have one : (r.after (.attach d)).attachments.length = r.attachments.length + 1 :=
        List.length_append
      have more : (attached (.attach d :: calls)).length = (attached calls).length + 1 := rfl
      omega
    | take => rfl
    | record held => exact congrArg (· + _) (length_answer r.attachments held)

/-- An attachment stands behind those that were attached in front of it, and has the last
answer since then. -/
theorem attachment_afterAll (before : List Call) (d : Demand) (later : List Call) :
    (empty.afterAll (before ++ .attach d :: later)).attachments[(attached before).length]? =
      some ⟨d.label, d.concern, lastAnswer (attached before).length later⟩ := by
  have position : (empty.afterAll before).attachments.length = (attached before).length :=
    (length_afterAll empty before).trans (Nat.zero_add _)
  have there : ((empty.afterAll before).after (.attach d)).attachments[(attached before).length]? =
      some d.attachment := by
    rw [← position]
    exact List.getElem?_concat_length
  have left : empty.afterAll (before ++ .attach d :: later) =
      ((empty.afterAll before).after (.attach d)).afterAll later := List.foldl_append
  rw [left, getElem?_afterAll there later, Demand.attachment, Option.or_none]

/-! ## Whom a registry blames -/

end Registry

/-- The attachment did not hold, and it can be blamed. -/
structure Attachment.Failed (a : Attachment) : Prop where
  /-- It did not hold. -/
  unheld : a.held = some false
  /-- It is no snapshot. -/
  nameable : a.concern ≠ .snapshot

namespace Concern

/-- The place of a concern in the order of blame. -/
def rank (c : Concern) : Nat := c.failure.rank

theorem precedence_ordered : precedence.Pairwise fun c c' => c.rank < c'.rank := by decide

theorem mem_precedence (c : Concern) : c ∈ precedence ↔ c ≠ .snapshot := by
  cases c <;> decide

theorem failure_ne_aborted {c : Concern} (nameable : c ≠ .snapshot) : c.failure ≠ .aborted := by
  intro same
  exact nameable (c.concern_failure.symm.trans (congrArg FailureKind.concern same))

end Concern

namespace Registry

/-- Of two attachments at positions one comes first by its concern, or by its position between
equal concerns. -/
def Earlier (i : Nat) (a : Attachment) (j : Nat) (b : Attachment) : Prop :=
  a.concern.rank < b.concern.rank ∨ a.concern.rank = b.concern.rank ∧ i ≤ j

/-- The first of the attachments that failed. -/
structure Least (r : Registry) (i : Nat) (a : Attachment) : Prop where
  /-- It stands at its position. -/
  there : r.attachments[i]? = some a
  /-- It failed. -/
  failed : a.Failed
  /-- None that failed comes earlier. -/
  least : ∀ (j : Nat) (b : Attachment), r.attachments[j]? = some b → b.Failed → Earlier i a j b

variable {r : Registry} {a : Attachment}

/-- The search for a concern finds the first failed attachment of it. -/
theorem firstFailed_position {concern : Concern} (found : r.firstFailed concern = some a) :
    a.concern = concern ∧ a.held = some false ∧ ∃ i : Nat, r.attachments[i]? = some a ∧
      ∀ (j : Nat) (b : Attachment), r.attachments[j]? = some b → b.held = some false →
        b.concern = concern → i ≤ j := by
  obtain ⟨failed, i, inside, rfl, first⟩ := List.find?_eq_some_iff_getElem.1 found
  obtain ⟨about, unheld⟩ := of_decide_eq_true failed
  refine ⟨about, unheld, i, List.getElem?_eq_getElem inside, fun j b there unheld' about' => ?_⟩
  by_contra before
  have := first j (Nat.not_le.1 before)
  obtain ⟨_, rfl⟩ := List.getElem?_eq_some_iff.1 there
  simp [unheld', about'] at this

/-- The search through concerns in order finds the least failed attachment of any of them. -/
theorem least_of_search {concerns : List Concern}
    (ordered : concerns.Pairwise fun c c' => c.rank < c'.rank)
    (found : concerns.findSome? r.firstFailed = some a) :
    a.concern ∈ concerns ∧ a.held = some false ∧ ∃ i : Nat, r.attachments[i]? = some a ∧
      ∀ (j : Nat) (b : Attachment), r.attachments[j]? = some b → b.held = some false →
        b.concern ∈ concerns → Earlier i a j b := by
  obtain ⟨front, concern, rest, rfl, here, none⟩ := List.findSome?_eq_some_iff.1 found
  obtain ⟨rfl, unheld, i, there, first⟩ := firstFailed_position here
  refine ⟨List.mem_append_right _ List.mem_cons_self, unheld, i, there, ?_⟩
  intro j b there' unheld' among
  rcases List.mem_append.1 among with ahead | behind
  · have nobody := List.find?_eq_none.1 (none b.concern ahead) b (List.mem_of_getElem? there')
    simp [unheld'] at nobody
  · rcases List.mem_cons.1 behind with same | behind
    · exact .inr ⟨congrArg Concern.rank same.symm, first j b there' unheld' same⟩
    · have later := (List.pairwise_append.1 ordered).2.1
      exact .inl (List.rel_of_pairwise_cons later behind)

/-- The search through concerns fails only if no attachment of any of them failed. -/
theorem held_of_search {concerns : List Concern}
    (nobody : concerns.findSome? r.firstFailed = none) :
    ∀ b ∈ r.attachments, b.concern ∈ concerns → b.held ≠ some false := by
  intro b mem among unheld
  have passed := List.find?_eq_none.1 (List.findSome?_eq_none_iff.1 nobody b.concern among) b mem
  simp [unheld] at passed

/-- The diagnosis blames the least attachment that failed, or nobody if none did. -/
theorem diagnose_least (r : Registry) :
    (∃ i a, r.Least i a ∧ r.diagnose = ⟨a.concern.failure, some a.label⟩) ∨
      (∀ a ∈ r.attachments, ¬ a.Failed) ∧ r.diagnose = .aborted := by
  unfold diagnose
  cases search : Concern.precedence.findSome? r.firstFailed with
  | some a =>
    obtain ⟨among, unheld, i, there, least⟩ := least_of_search Concern.precedence_ordered search
    have failed : a.Failed := ⟨unheld, a.concern.mem_precedence.1 among⟩
    refine .inl ⟨i, a, ⟨there, failed, fun j b there' failed' => ?_⟩, rfl⟩
    exact least j b there' failed'.unheld (b.concern.mem_precedence.2 failed'.nameable)
  | none =>
    refine .inr ⟨fun b mem failed => ?_, rfl⟩
    exact held_of_search search b mem (b.concern.mem_precedence.2 failed.nameable) failed.unheld

theorem diagnose_eq_aborted_iff (r : Registry) :
    r.diagnose = .aborted ↔ ∀ a ∈ r.attachments, ¬ a.Failed := by
  rcases r.diagnose_least with ⟨i, a, first, diagnosed⟩ | ⟨nobody, aborted⟩
  · refine iff_of_false (fun aborted => ?_) fun nobody => ?_
    · have kind := congrArg Rejection.kind (diagnosed.symm.trans aborted)
      exact Concern.failure_ne_aborted first.failed.nameable kind
    · exact nobody a (List.mem_of_getElem? first.there) first.failed
  · exact iff_of_true aborted nobody

/-- Whatever is done to a registry, it gives each condition out once and in order and keeps what
it knows of them.  Of each attachment it knows the last answer that was long enough, if there was
one since it was attached.  It blames the least attachment that failed by concern and position,
and nobody exactly if none failed. -/
theorem diagnosis_of_calls (calls : List Call) :
    let r := empty.afterAll calls
    (empty.taken calls ++ r.take.1 = (attached calls).map Demand.condition ∧
      r.take.2.take.1 = [] ∧ r.take.2.attachments = r.attachments) ∧
    (r.attachments.length = (attached calls).length ∧
      ∀ before d later, calls = before ++ .attach d :: later →
        r.attachments[(attached before).length]? =
          some ⟨d.label, d.concern, lastAnswer (attached before).length later⟩) ∧
    ((∃ i a, r.Least i a ∧ r.diagnose = ⟨a.concern.failure, some a.label⟩) ∨
      (∀ a ∈ r.attachments, ¬ a.Failed) ∧ r.diagnose = .aborted) ∧
    (r.diagnose = .aborted ↔ ∀ a ∈ r.attachments, ¬ a.Failed) := by
  intro r
  refine ⟨⟨taken_afterAll empty calls, rfl, rfl⟩, ⟨?_, ?_⟩, r.diagnose_least,
    r.diagnose_eq_aborted_iff⟩
  · exact (length_afterAll empty calls).trans (Nat.zero_add _)
  · rintro before d later rfl
    exact attachment_afterAll before d later

/-- A short round answers the first attachment only, and a surplus answer is dropped.  The value
is blamed in the end although the snapshot in front of it failed too. -/
example :
    let r := empty.afterAll [.attach ⟨.snapshot, "", .keyExists ⟨"a"⟩⟩,
      .attach ⟨.value, "b", .keyExists ⟨"b"⟩⟩, .attach ⟨.presence, "c", .keyExists ⟨"c"⟩⟩,
      .take, .record [false, false, true, false], .record [false]]
    r.conditions = [] ∧ r.diagnose = ⟨.failedCondition, some "b"⟩ := by
  decide

end Registry

end Matchmaking
