import Matchmaking.Proofs.Commit

/-!
# Staging errors

A staging call that cannot be staged leaves an error behind.  Entries are written one by
one, so a call can leave several errors, and what can be staged of it is staged
(`Operation.remainder`).  Staging operations is therefore the same as staging what remains
of them and remembering the first of their errors (`Transaction.stageAll_remainder`).

A transaction with an error is never submitted.  A transaction without one is, and an error
of such a kind then comes from the store.
-/

namespace Matchmaking

/-- The error is of a kind that staging leaves behind. -/
def StoreError.isOfStaging : StoreError → Bool
  | serialization _ => true
  | invalidOperation _ => true
  | _ => false

/-! ## What can be staged -/

/-- Why an entry cannot be written. -/
def Draft.error? (d : Draft) : Option StoreError :=
  match d.text with
  | .ok _ => none
  | .error e => some e

theorem Draft.error?_eq_none {d : Draft} : d.error? = none ↔ ∃ text, d.text = .ok text := by
  unfold error?
  cases d.text <;> simp

/-- The entries that can be written. -/
def Draft.writable (entries : List Draft) : List Draft := entries.filter (·.error?.isNone)

theorem Draft.writable_cons_of_none {d : Draft} (entries : List Draft) (h : d.error? = none) :
    writable (d :: entries) = d :: writable entries :=
  List.filter_cons_of_pos (Option.isNone_iff_eq_none.2 h)

theorem Draft.writable_cons_of_some {d : Draft} {e : StoreError} (entries : List Draft)
    (h : d.error? = some e) : writable (d :: entries) = writable entries :=
  List.filter_cons_of_neg (by simp [h])

theorem Draft.exists_text_of_mem_writable {entries : List Draft} {d : Draft}
    (h : d ∈ writable entries) : ∃ text, d.text = .ok text :=
  error?_eq_none.1 (Option.isNone_iff_eq_none.1 (List.mem_filter.1 h).2)

namespace Operation

variable (settings : Settings)

/-- The errors that staging an operation leaves behind, in order. -/
def errors : Operation → List StoreError
  | .create entries => entries.filterMap Draft.error?
  | .update entries => entries.filterMap Draft.error?
  | .dequeue queue count =>
    if 0 < count ∧ count ≤ settings.maxDequeue then []
    else [Transaction.dequeueOutOfBounds queue count settings.maxDequeue]
  | _ => []

/-- What of an operation can be staged. -/
def remainder : Operation → List Operation
  | .create entries => [.create (Draft.writable entries)]
  | .update entries => [.update (Draft.writable entries)]
  | .dequeue queue count =>
    if 0 < count ∧ count ≤ settings.maxDequeue then [.dequeue queue count] else []
  | op => [op]

variable {settings} {op : Operation}

/-- An operation can be staged exactly if it leaves no error behind. -/
theorem errors_eq_nil : op.errors settings = [] ↔ op.Stageable settings := by
  cases op with
  | create entries | update entries =>
    simp only [errors, List.filterMap_eq_nil_iff, Draft.error?_eq_none]
    rfl
  | dequeue queue count =>
    by_cases bounds : 0 < count ∧ count ≤ settings.maxDequeue
    · exact iff_of_true (if_pos bounds) bounds
    · rw [errors, if_neg bounds]
      exact iff_of_false (List.cons_ne_nil _ _) bounds
  | _ => exact iff_of_true rfl trivial

/-- What remains of an operation can be staged. -/
theorem stageable_remainder : ∀ op' ∈ op.remainder settings, op'.Stageable settings := by
  cases op with
  | create entries | update entries =>
    exact List.forall_mem_singleton.2 fun d hd => Draft.exists_text_of_mem_writable hd
  | dequeue queue count =>
    rw [remainder]
    split
    next bounds => exact List.forall_mem_singleton.2 bounds
    next => exact List.forall_mem_nil _
  | _ => exact List.forall_mem_singleton.2 trivial

end Operation

/-! ## Staging what remains -/

namespace Transaction

/-- A transaction that remembers the first of some errors, unless it has one already. -/
def remember (tx : Transaction) (errors : List StoreError) : Transaction :=
  { tx with deferred := tx.deferred.or errors.head? }

theorem remember_nil (tx : Transaction) : tx.remember [] = tx := by
  rw [remember, List.head?_nil, Option.or_none]

theorem remember_remember (tx : Transaction) (es es' : List StoreError) :
    (tx.remember es).remember es' = tx.remember (es ++ es') := by
  simp only [remember, List.head?_append, Option.or_assoc]

/-- What is appended leaves the error as it is. -/
theorem extend_fail (tx : Transaction) (e : StoreError) (demands : List Demand)
    (commands : List Command) :
    (tx.fail e).extend demands commands = (tx.extend demands commands).remember [e] :=
  rfl

/-- Staging entries one after the other stages those that can be written, and remembers why
the others cannot. -/
theorem foldl_remember {f : Transaction → Draft → Transaction} (ds : Draft → List Demand)
    (cs : Draft → List Command)
    (written : ∀ tx d text, d.text = .ok text → f tx d = tx.extend (ds d) (cs d))
    (failed : ∀ tx d e, d.text = .error e → f tx d = tx.fail e) (entries : List Draft)
    (tx : Transaction) :
    entries.foldl f tx =
      ((Draft.writable entries).foldl f tx).remember (entries.filterMap Draft.error?) := by
  have all (tx : Transaction) (entries : List Draft) : (Draft.writable entries).foldl f tx =
      tx.extend ((Draft.writable entries).flatMap ds) ((Draft.writable entries).flatMap cs) := by
    refine foldl_extend (fun d hd tx => ?_) tx
    obtain ⟨text, ht⟩ := Draft.exists_text_of_mem_writable hd
    exact written tx d text ht
  induction entries generalizing tx with
  | nil => exact tx.remember_nil.symm
  | cons d entries ih =>
    rw [List.foldl_cons, ih]
    cases text : d.text with
    | ok text' =>
      have fine : d.error? = none := Draft.error?_eq_none.2 ⟨text', text⟩
      rw [Draft.writable_cons_of_none entries fine, List.filterMap_cons_none fine, List.foldl_cons]
    | error e =>
      have bad : d.error? = some e := by rw [Draft.error?, text]
      rw [Draft.writable_cons_of_some entries bad, List.filterMap_cons_some bad]
      -- The error that is remembered first does not change what the others append.
      rw [failed tx d e text, all, all tx, extend_fail, remember_remember, List.singleton_append]

/-- Staging an operation stages what remains of it and remembers its errors. -/
theorem stage_remainder (tx : Transaction) (op : Operation) :
    tx.stage op = (tx.stageAll (op.remainder tx.settings)).remember (op.errors tx.settings) := by
  cases op with
  | create entries =>
    refine foldl_remember (fun d => [.absent d.key]) Operation.writeCommand
      (fun tx d text ht => ?_) (fun tx d e ht => ?_) entries tx
    · simp only [createOne, Operation.writeCommand, ht]
      rw [write_eq, require_eq, extend_extend]
      rfl
    · simp only [createOne, ht]
  | update entries =>
    refine foldl_remember (fun d => [.present d.key, .unchanged d]) Operation.writeCommand
      (fun tx d text ht => ?_) (fun tx d e ht => ?_) entries tx
    · simp only [updateOne, Operation.writeCommand, ht]
      rw [write_eq, requireUnchanged_eq, extend_extend]
      rfl
    · simp only [updateOne, ht]
  | dequeue queue count =>
    rw [Operation.remainder, Operation.errors]
    by_cases bounds : 0 < count ∧ count ≤ tx.settings.maxDequeue
    · rw [if_pos bounds, if_pos bounds, remember_nil]
      rfl
    · rw [if_neg bounds, if_neg bounds, stage, if_neg bounds]
      rfl
  | _ => exact (remember_nil _).symm

/-- What is remembered does not change what is staged afterwards. -/
theorem stageAll_remember (tx : Transaction) (errors : List StoreError) {ops : List Operation}
    (staged : ∀ op ∈ ops, op.Stageable tx.settings) :
    (tx.remember errors).stageAll ops = (tx.stageAll ops).remember errors := by
  rw [stageAll_eq (tx.remember errors) staged, stageAll_eq tx staged]
  rfl

/-- Staging keeps the number. -/
theorem id_stage (tx : Transaction) (op : Operation) : (tx.stage op).id = tx.id := by
  rw [stage_remainder, stageAll_eq tx Operation.stageable_remainder]
  rfl

/-- Staging keeps the limits. -/
theorem settings_stage (tx : Transaction) (op : Operation) :
    (tx.stage op).settings = tx.settings := by
  rw [stage_remainder, stageAll_eq tx Operation.stageable_remainder]
  rfl

/-- Staging operations stages what remains of them and remembers their errors. -/
theorem stageAll_remainder (tx : Transaction) (ops : List Operation) :
    tx.stageAll ops = (tx.stageAll (ops.flatMap (·.remainder tx.settings))).remember
      (ops.flatMap (·.errors tx.settings)) := by
  induction ops generalizing tx with
  | nil => exact tx.remember_nil.symm
  | cons op ops ih =>
    let first := op.remainder tx.settings
    let second := ops.flatMap (·.remainder tx.settings)
    have staged : ∀ op' ∈ second, op'.Stageable (tx.stageAll first).settings := by
      rw [stageAll_eq tx Operation.stageable_remainder]
      exact List.forall_mem_flatMap.2 fun op _ => Operation.stageable_remainder
    calc tx.stageAll (op :: ops) = (tx.stage op).stageAll ops := rfl
      _ = ((tx.stage op).stageAll second).remember (ops.flatMap (·.errors tx.settings)) := by
        rw [ih, settings_stage]
      _ = (((tx.stageAll first).stageAll second).remember (op.errors tx.settings)).remember
          (ops.flatMap (·.errors tx.settings)) := by
        rw [stage_remainder, stageAll_remember _ _ staged]
      _ = _ := by
        rw [remember_remember, List.flatMap_cons, List.flatMap_cons, stageAll, stageAll, stageAll,
          List.foldl_append]

end Transaction
/-! ## The error of a commit -/

section

variable {id : Nat} {settings : Settings} {ops : List Operation}

/-- What remains of operations leaves no error behind. -/
theorem Transaction.deferred_stageAll_remainder :
    ((empty id settings).stageAll (ops.flatMap (·.remainder settings))).deferred = none :=
  deferred_stageAll.2 ⟨List.forall_mem_flatMap.2 fun _ _ => Operation.stageable_remainder, rfl⟩

/-- The first operation that cannot be staged has the first error. -/
theorem Operation.head?_errors_of_first {before : List Operation} {op : Operation}
    (ahead : ∀ op' ∈ before, op'.Stageable settings) (unstageable : ¬ op.Stageable settings)
    (later : List Operation) : ∃ e rest, op.errors settings = e :: rest ∧
      ((before ++ op :: later).flatMap (·.errors settings)).head? = some e := by
  obtain ⟨e, rest, errors⟩ := List.exists_cons_of_ne_nil (mt Operation.errors_eq_nil.1 unstageable)
  have none : before.flatMap (·.errors settings) = [] :=
    List.flatMap_eq_nil_iff.2 fun op' hop' => Operation.errors_eq_nil.2 (ahead op' hop')
  refine ⟨e, rest, errors, ?_⟩
  rw [List.flatMap_append, none, List.flatMap_cons, errors]
  rfl

/-- Operations of which one cannot be staged have a first such operation. -/
theorem Operation.exists_first_unstageable (unstaged : ¬ ∀ op ∈ ops, op.Stageable settings) :
    ∃ before op later, ops = before ++ op :: later ∧
      (∀ op' ∈ before, op'.Stageable settings) ∧ ¬ op.Stageable settings := by
  induction ops with
  | nil => exact absurd (List.forall_mem_nil _) unstaged
  | cons op ops ih =>
    by_cases here : op.Stageable settings
    · obtain ⟨before, op', later, rfl, ahead, unstageable⟩ :=
        ih fun rest => unstaged (List.forall_mem_cons.2 ⟨here, rest⟩)
      exact ⟨op :: before, op', later, rfl, List.forall_mem_cons.2 ⟨here, ahead⟩, unstageable⟩
    · exact ⟨[], op, ops, rfl, List.forall_mem_nil _, here⟩

/-- A transaction with an error is not submitted. -/
theorem Client.commit_of_deferred {tx : Transaction} {e : StoreError}
    (failed : tx.deferred = some e) : commit tx = .done (.error e) := by
  rw [commit, Transaction.submission, failed]

/-- A transaction without an error gets an error of staging's kind from the store only. -/
theorem Client.executed_of_run_commit {tx : Transaction} (clean : tx.deferred = none)
    {σ : Type} {serve : (r : Request) → σ → r.Answer × σ} {s : σ} {e : StoreError}
    (kind : e.isOfStaging = true) (failed : ((commit tx).run serve s).1 = .error e) :
    ∃ b, tx.submission = .batch b ∧ (serve (.execute b) s).1 = .error e := by
  have submission : tx.submission = if tx.commands.isEmpty && tx.registry.isEmpty then .nothing
      else .batch ⟨tx.registry.take.1, tx.commands⟩ := by rw [Transaction.submission, clean]
  by_cases nothing : (tx.commands.isEmpty && tx.registry.isEmpty) = true
  · rw [if_pos nothing] at submission
    rw [commit, submission] at failed
    contradiction
  · rw [if_neg nothing] at submission
    rw [commit, submission] at failed
    refine ⟨_, submission, ?_⟩
    change tx.conclude (serve (.execute _) s).1 = .error e at failed
    generalize (serve (.execute _) s).1 = outcome at failed ⊢
    cases outcome with
    | error e' => exact congrArg Except.error (Except.error.inj failed)
    | ok outcome =>
      cases outcome with
      | committed replies => contradiction
      | rejected held =>
        obtain rfl := Except.error.inj failed
        contradiction

end

/-- If some operation cannot be staged, the first error of the first such operation is what a
commit returns: the store is not asked and stays as it is, and the transaction holds what
remains of all operations, of those before the error and of those after it.  If all of them
can be staged, a commit returns an error of such a kind only if executing the batch does. -/
theorem first_staging_error_wins (id : Nat) (settings : Settings) (ops : List Operation) :
    let tx := (Transaction.empty id settings).stageAll ops
    let staged := (Transaction.empty id settings).stageAll (ops.flatMap (·.remainder settings))
    ((¬ ∀ op ∈ ops, op.Stageable settings) →
      ∃ before op later e rest, ops = before ++ op :: later ∧
        (∀ op' ∈ before, op'.Stageable settings) ∧ ¬ op.Stageable settings ∧
        op.errors settings = e :: rest ∧
        Client.commit tx = .done (.error e) ∧
        (∀ c : Connection, (Client.commit tx).run Connection.serve c = (.error e, c)) ∧
        staged.deferred = none ∧ tx = { staged with deferred := some e } ∧ tx.isEmpty = false) ∧
    ((∀ op ∈ ops, op.Stageable settings) →
      ∀ (σ : Type) (serve : (r : Request) → σ → r.Answer × σ) (s : σ) (e : StoreError),
        e.isOfStaging = true → ((Client.commit tx).run serve s).1 = .error e →
          ∃ b, tx.submission = .batch b ∧ (serve (.execute b) s).1 = .error e) := by
  intro tx staged
  have clean : staged.deferred = none := Transaction.deferred_stageAll_remainder
  refine ⟨fun unstaged => ?_, fun all σ serve s e kind failed => ?_⟩
  · obtain ⟨before, op, later, split, ahead, unstageable⟩ :=
      Operation.exists_first_unstageable unstaged
    obtain ⟨e, rest, errors, first⟩ :=
      Operation.head?_errors_of_first ahead unstageable later
    have holds : tx = { staged with deferred := some e } := by
      have recalled : tx = staged.remember _ := Transaction.stageAll_remainder _ ops
      rw [recalled, Transaction.remember, clean, split]
      exact congrArg (Transaction.mk _ _ _ _) first
    have ended : Client.commit tx = .done (.error e) :=
      Client.commit_of_deferred (congrArg Transaction.deferred holds)
    refine ⟨before, op, later, e, rest, split, ahead, unstageable, errors, ended, fun c => ?_,
      clean, holds, ?_⟩
    · rw [ended]
      rfl
    · rw [holds, Transaction.isEmpty]
      exact Bool.and_false _
  · exact Client.executed_of_run_commit (Transaction.deferred_stageAll.2 ⟨all, rfl⟩) kind failed

/-- An entry that cannot be written comes before a dequeue of nothing, so a commit reports
the entry.  The entries next to it and the deletion in front of it stay staged. -/
theorem unwritable_entry_wins :
    let entries : List Draft := [⟨.entry Party "a", .ok "A", none⟩,
      ⟨.entry Party "b", .error (.serialization .unwritable), none⟩,
      ⟨.entry Party "c", .ok "C", none⟩]
    let ops : List Operation :=
      [.deleteKey (.entry Party "z"), .create entries, .dequeue "ranked" 0]
    let tx := (Transaction.empty 1 .default).stageAll ops
    let c : Connection := ⟨.empty, .default, 1⟩
    (¬ ∀ op ∈ ops, op.Stageable .default) ∧
      (Client.commit tx).run Connection.serve c = (.error (.serialization .unwritable), c) ∧
      tx.isEmpty = false ∧
      tx.commands = [.delete (.entry Party "z"), .setString (.entry Party "a") "A",
        .setString (.entry Party "c") "C"] := by
  intro entries ops tx c
  have unstaged : ¬ ∀ op ∈ ops, op.Stageable .default := fun all =>
    absurd (all (.dequeue "ranked" 0) (by simp [ops])).1 (by decide)
  obtain ⟨before, op, later, e, rest, -, -, -, -, ended, asks, clean, holds, filled⟩ :=
    (first_staging_error_wins 1 .default ops).1 unstaged
  have first : some e = some (.serialization .unwritable) := by
    rw [← show tx.deferred = some e from congrArg Transaction.deferred holds]
    rfl
  obtain rfl := Option.some.inj first
  exact ⟨unstaged, asks c, filled, rfl⟩

end Matchmaking
