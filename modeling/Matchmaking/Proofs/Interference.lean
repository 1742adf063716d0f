import Matchmaking.Proofs.Places
import Matchmaking.Proofs.Representation

/-!
# Calls amid other clients

A call makes one request at a time, and before each of them other clients may have
changed the store.  `Procedure.Amid` is a run of a call in their company.  It keeps every
request with its answer and with the store right before and right after it
(`Exchange`), so it tells what the call itself did from what it found.

What others may do can depend on what the call has been handed so far (`Moment`).

A run is taken apart along its procedure.  A read finds what the store holds at that
moment (`Amid.get`), and a commit is one of four things that the table of operations
says (`Commits`).
-/

namespace Matchmaking

/-! ## Exchanges -/

/-- The members that a reply hands out. -/
def Reply.members : Reply → List ScoredMember
  | done => []
  | popped members => members

namespace Request

/-- The members that an answer hands out. -/
def popped : (r : Request) → r.Answer → List ScoredMember
  | .execute _, .ok (.committed replies) => replies.flatMap Reply.members
  | _, _ => []

/-- Whether a request asks for a text to be written. -/
def writesText : Request → Bool
  | execute batch => batch.commands.any fun
    | .setString _ _ => true
    | _ => false
  | _ => false

end Request

/-- A request that a store answered. -/
structure Exchange where
  /-- The request. -/
  request : Request
  /-- The answer. -/
  answer : request.Answer
  /-- The store right before the request. -/
  before : Keyspace
  /-- The store right after it. -/
  after : Keyspace

namespace Exchange

/-- The members that an exchange hands out. -/
def popped (x : Exchange) : List ScoredMember := x.request.popped x.answer

/-- The text at a key is read. -/
def reading (key : Key) (ks : Keyspace) : Exchange := ⟨.readString key, ks.string key, ks, ks⟩

/-- A transaction is opened. -/
def opening (id : Nat) (settings : Settings) (ks : Keyspace) : Exchange :=
  ⟨.begin, .empty id settings, ks, ks⟩

/-- The batch of some operations is executed. -/
def executing (ops : List Operation) (answer : Except StoreError Outcome) (ks after : Keyspace) :
    Exchange :=
  ⟨.execute (Keyspace.batchOf ops), answer, ks, after⟩

/-- Some operations take effect. -/
def committing (ops : List Operation) (ks : Keyspace) : Exchange :=
  executing ops (.ok (.committed (ks.answers (Operation.allCommands ops)))) ks
    (Operation.allEffects ks ops)

/-- Nothing changes, and nothing is handed out. -/
structure Idle (x : Exchange) : Prop where
  same : x.after = x.before
  popped : x.popped = []

/-- Only one key changes. -/
def Within (key : Key) (x : Exchange) : Prop := ∀ k, k ≠ key → x.after[k]? = x.before[k]?

theorem Idle.within {x : Exchange} (h : x.Idle) (key : Key) : x.Within key := by
  intro k _
  rw [h.same]

/-- Exchanges that do not even ask for a change. -/
inductive Looks : Exchange → Prop where
  | reading (key : Key) (ks : Keyspace) : Looks (reading key ks)
  | opening (id : Nat) (settings : Settings) (ks : Keyspace) : Looks (opening id settings ks)

theorem Looks.idle {x : Exchange} (h : x.Looks) : x.Idle := by
  cases h with
  | reading key ks => exact ⟨rfl, rfl⟩
  | opening id settings ks => exact ⟨rfl, rfl⟩

theorem Looks.writesText {x : Exchange} (h : x.Looks) : x.request.writesText = false := by
  cases h with
  | reading key ks => rfl
  | opening id settings ks => rfl

/-- The number of exchanges that ask for texts to be written. -/
def textWrites (xs : List Exchange) : Nat := xs.countP fun x => x.request.writesText

theorem textWrites_append (xs ys : List Exchange) :
    textWrites (xs ++ ys) = textWrites xs + textWrites ys :=
  List.countP_append

theorem textWrites_eq_zero {xs : List Exchange}
    (silent : ∀ x ∈ xs, x.request.writesText = false) : textWrites xs = 0 :=
  List.countP_eq_zero.2 fun x hx => by simp [silent x hx]

theorem textWrites_looks {xs : List Exchange} (looks : ∀ x ∈ xs, x.Looks) : textWrites xs = 0 :=
  textWrites_eq_zero fun x hx => (looks x hx).writesText

end Exchange

/-! ## Runs -/

/-- How far a call has come. -/
structure Moment where
  /-- The store as the call left it. -/
  keyspace : Keyspace
  /-- The members that the call was handed. -/
  handed : List ScoredMember

/-- The moment right after an exchange. -/
def Moment.next (m : Moment) (x : Exchange) : Moment := ⟨x.after, m.handed ++ x.popped⟩

namespace Procedure

section

variable (others : Moment → Keyspace → Prop) {ε : Type} {α : Type}

/-- From a moment on a call runs to its result.  Before each of its requests the others
do something that they may do. -/
inductive Amid : Moment → Procedure ε α → Except ε α → List Exchange → Moment → Prop where
  | done {m : Moment} {result : Except ε α} : Amid m (.done result) result [] m
  | ask {m last : Moment} {r : Request} {next : r.Answer → Procedure ε α} {answer : r.Answer}
      {before after : Keyspace} {result : Except ε α} {trace : List Exchange}
      (gap : others m before) (answered : Answered before r answer after)
      (rest : Amid (m.next ⟨r, answer, before, after⟩) (next answer) result trace last) :
      Amid m (.ask r next) result (⟨r, answer, before, after⟩ :: trace) last

end

variable {others : Moment → Keyspace → Prop} {ε δ α β : Type} {m last : Moment}
  {trace : List Exchange}

/-- Whatever the others choose to do, a call runs to a result. -/
theorem exists_amid {choose : Moment → Keyspace} (may : ∀ m, others m (choose m))
    (p : Procedure ε α) (m : Moment) :
    ∃ result trace last, Amid others m p result trace last := by
  induction p generalizing m with
  | done result => exact ⟨result, [], m, .done⟩
  | ask r next ih =>
    have answered := Answered.serve (r := r) ⟨⟨choose m, [], 0⟩, .default, 0⟩ rfl rfl
    obtain ⟨result, trace, last, rest⟩ := ih _ _
    exact ⟨result, _, last, .ask (may m) answered rest⟩

namespace Amid

/-! ### What a whole run keeps -/

theorem answered {p : Procedure ε α} {result : Except ε α}
    (run : Amid others m p result trace last) :
    ∀ x ∈ trace, Answered x.before x.request x.answer x.after := by
  induction run with
  | done => exact List.forall_mem_nil _
  | ask gap answered rest ih => exact List.forall_mem_cons.2 ⟨answered, ih⟩

/-- A call has been handed what the exchanges of its run handed out. -/
theorem handed_eq {p : Procedure ε α} {result : Except ε α}
    (run : Amid others m p result trace last) :
    last.handed = m.handed ++ trace.flatMap Exchange.popped := by
  induction run with
  | done => rw [List.flatMap_nil, List.append_nil]
  | ask gap answered rest ih =>
    rw [ih, List.flatMap_cons, ← List.append_assoc]
    rfl

/-- A property of stores holds at the end of a run if the others and the exchanges of the
run keep it.  What a call was handed stays with it, so the others may be asked to keep
the property only while the call has it. -/
theorem invariant {P : Keyspace → Prop} {p : Procedure ε α} {result : Except ε α}
    (run : Amid others m p result trace last)
    (gap : ∀ m' ks, m.handed ⊆ m'.handed → others m' ks → P m'.keyspace → P ks)
    (step : ∀ x ∈ trace, P x.before → P x.after) (start : P m.keyspace) : P last.keyspace := by
  induction run with
  | done => exact start
  | @ask m last r next answer before after result trace between answered rest ih =>
    obtain ⟨here, there⟩ := List.forall_mem_cons.1 step
    refine ih (fun m' ks kept => ?_) there (here (gap m before (List.Subset.refl _) between start))
    exact gap m' ks fun a mem => kept (List.mem_append_left _ mem)

/-! ### Along a procedure -/

section

variable {p : Procedure ε α}

theorem bind {a : α} {f : α → Procedure ε β} {result : Except ε β} {mid : Moment}
    {later : List Exchange} (first : Amid others m p (.ok a) trace mid)
    (rest : Amid others mid (f a) result later last) :
    Amid others m (p >>= f) result (trace ++ later) last := by
  change Amid others m (p.bind f) result (trace ++ later) last
  generalize ended : Except.ok a = outcome at first
  induction first with
  | done =>
    subst ended
    exact rest
  | ask gap answered _ ih => exact .ask gap answered (ih rest ended)

/-- A handler has nothing to do where the procedure does not fail. -/
theorem handle {a : α} {f : ε → Procedure ε α} (run : Amid others m p (.ok a) trace last) :
    Amid others m (p.handle f) (.ok a) trace last := by
  generalize ended : Except.ok a = outcome at run ⊢
  induction run with
  | done =>
    subst ended
    exact .done
  | ask gap answered _ ih => exact .ask gap answered (ih ended)

theorem mapError {f : ε → δ} {result : Except ε α} (run : Amid others m p result trace last) :
    Amid others m (p.mapError f) (result.mapError f) trace last := by
  induction run with
  | done => exact .done
  | ask gap answered _ ih => exact .ask gap answered ih

theorem attempt {result : Except ε α} (run : Amid others m p result trace last) :
    Amid others m (p.attempt : Procedure δ _) (.ok result) trace last := by
  induction run with
  | done => exact .done
  | ask gap answered _ ih => exact .ask gap answered ih

theorem bind_inv {f : α → Procedure ε β} {result : Except ε β}
    (run : Amid others m (p >>= f) result trace last) :
    (∃ e, result = .error e ∧ Amid others m p (.error e) trace last) ∨
      ∃ a first mid second, trace = first ++ second ∧ Amid others m p (.ok a) first mid ∧
        Amid others mid (f a) result second last := by
  change Amid others m (p.bind f) result trace last at run
  induction p generalizing m trace with
  | done outcome =>
    cases outcome with
    | ok a => exact .inr ⟨a, [], m, trace, rfl, .done, run⟩
    | error e =>
      cases run
      exact .inl ⟨e, rfl, .done⟩
  | ask r next ih =>
    cases run with
    | ask gap answered rest =>
      rcases ih _ rest with ⟨e, failed, run⟩ | ⟨a, first, mid, second, rfl, run, rest⟩
      · exact .inl ⟨e, failed, .ask gap answered run⟩
      · exact .inr ⟨a, _ :: first, mid, second, rfl, .ask gap answered run, rest⟩

theorem handle_inv {f : ε → Procedure ε α} {result : Except ε α}
    (run : Amid others m (p.handle f) result trace last) :
    (∃ a, result = .ok a ∧ Amid others m p (.ok a) trace last) ∨
      ∃ e first mid second, trace = first ++ second ∧ Amid others m p (.error e) first mid ∧
        Amid others mid (f e) result second last := by
  induction p generalizing m trace with
  | done outcome =>
    cases outcome with
    | ok a =>
      cases run
      exact .inl ⟨a, rfl, .done⟩
    | error e => exact .inr ⟨e, [], m, trace, rfl, .done, run⟩
  | ask r next ih =>
    cases run with
    | ask gap answered rest =>
      rcases ih _ rest with ⟨a, ended, run⟩ | ⟨e, first, mid, second, rfl, run, rest⟩
      · exact .inl ⟨a, ended, .ask gap answered run⟩
      · exact .inr ⟨e, _ :: first, mid, second, rfl, .ask gap answered run, rest⟩

theorem mapError_inv {f : ε → δ} {result : Except δ α}
    (run : Amid others m (p.mapError f) result trace last) :
    ∃ outcome, result = outcome.mapError f ∧ Amid others m p outcome trace last := by
  induction p generalizing m trace with
  | done outcome =>
    cases run
    exact ⟨outcome, rfl, .done⟩
  | ask r next ih =>
    cases run with
    | ask gap answered rest =>
      obtain ⟨outcome, same, run⟩ := ih _ rest
      exact ⟨outcome, same, .ask gap answered run⟩

theorem attempt_inv {result : Except δ (Except ε α)}
    (run : Amid others m p.attempt result trace last) :
    ∃ outcome, result = .ok outcome ∧ Amid others m p outcome trace last := by
  induction p generalizing m trace with
  | done outcome =>
    cases run
    exact ⟨outcome, rfl, .done⟩
  | ask r next ih =>
    cases run with
    | ask gap answered rest =>
      obtain ⟨outcome, same, run⟩ := ih _ rest
      exact ⟨outcome, same, .ask gap answered run⟩

end

end Amid

end Procedure

/-! ## Reads -/

namespace Procedure.Amid

variable {others : Moment → Keyspace → Prop} {m last : Moment} {trace : List Exchange}
  {α : Type} [Record α]

theorem get {id : String} {ks : Keyspace} (gap : others m ks) :
    Amid others m (Client.get α id) (ks.get α id) [.reading (.entry α id) ks]
      (m.next (.reading (.entry α id) ks)) := by
  refine .ask gap (.readString ks (.entry α id)) ?_
  unfold Keyspace.get
  cases ks.string (.entry α id) <;> exact .done

/-- A read of an id finds what is stored under it at that moment. -/
theorem get_inv {id : String} {result : Except StoreError (Option (Entry α))}
    (run : Amid others m (Client.get α id) result trace last) :
    ∃ ks, others m ks ∧ result = ks.get α id ∧ trace = [.reading (.entry α id) ks] := by
  cases run with
  | ask gap answered rest =>
    obtain ⟨rfl, rfl⟩ := answered.readString_inv
    refine ⟨_, gap, ?_⟩
    unfold Keyspace.get
    cases text : Keyspace.string _ (Key.entry α id) with
    | ok text' =>
      rw [text] at rest
      cases rest
      exact ⟨rfl, by rw [Exchange.reading, text]⟩
    | error e =>
      rw [text] at rest
      cases rest
      exact ⟨rfl, by rw [Exchange.reading, text]⟩

end Procedure.Amid

/-- Each stored entry of a type has the id that it is stored under. -/
def Keyspace.OwnIds (α : Type) [Record α] (ks : Keyspace) : Prop :=
  ∀ id e, ks.entry? α id = some e → e.id = id

theorem Keyspace.OwnIds.of_texts {α : Type} [Record α] {ks : Keyspace}
    (texts : ∀ id text, ks[Key.entry α id]? = some (.string text) →
      ∃ (record : α) (json : Json), text = json.print ∧ Record.decode json = some record ∧
        Record.id record = id) : ks.OwnIds α := by
  intro id e found
  unfold Keyspace.entry? at found
  split at found
  next text stored =>
    obtain ⟨record, json, rfl, decoded, same⟩ := texts id text stored
    rw [Entry.deserialize_print decoded] at found
    obtain rfl := Option.some.inj found
    exact same
  next => contradiction

namespace Keyspace

variable {α : Type} [Record α] {ks ks' : Keyspace}

theorem ownIds_iff : ks.OwnIds α ↔ ∀ id x, ks.record? α id = some x → Record.id x = id := by
  constructor
  · intro own id x stored
    obtain ⟨e, found, rfl⟩ := Option.map_eq_some_iff.1 stored
    exact own id e found
  · exact fun own id e found => own id e.record (Keyspace.record?_of_entry? found)

theorem ownIds_empty : OwnIds α ∅ := by
  refine ownIds_iff.2 fun id x stored => ?_
  rw [record?_of_absent Std.ExtTreeMap.getElem?_empty] at stored
  contradiction

theorem OwnIds.congr (h : ks.OwnIds α)
    (same : ∀ id, ks'[Key.entry α id]? = ks[Key.entry α id]?) : ks'.OwnIds α :=
  ownIds_iff.2 fun id x stored =>
    ownIds_iff.1 h id x ((record?_congr (same id)).symm.trans stored)

/-- Entries are written under their own ids. -/
theorem OwnIds.write (h : ks.OwnIds α) {e : Entry α} (readable : Readable e.record) :
    (e.draft.write ks).OwnIds α := by
  refine ownIds_iff.2 fun id x stored => ?_
  rw [(Entry.draft_writes readable).record?] at stored
  split at stored
  next here =>
    obtain rfl := Option.some.inj stored
    exact here.symm
  next => exact ownIds_iff.1 h id x stored

theorem OwnIds.erase (h : ks.OwnIds α) (id : String) :
    OwnIds α (ks.erase (.entry α id)) := by
  refine ownIds_iff.2 fun id' x stored => ?_
  rw [record?_erase] at stored
  split at stored
  · contradiction
  · exact ownIds_iff.1 h id' x stored

end Keyspace

/-- The entries that are found where some ids are read one after the other.  Each of
them is what the text stored under its id describes at that moment. -/
inductive Reads (α : Type) [Record α] : List String → List (Entry α) → List Exchange → Prop where
  | nil : Reads α [] [] []
  | absent {id : String} {ids : List String} {es : List (Entry α)} {xs : List Exchange}
      {ks : Keyspace} (nothing : ks.get α id = .ok none) (rest : Reads α ids es xs) :
      Reads α (id :: ids) es (.reading (.entry α id) ks :: xs)
  | found {id : String} {ids : List String} {e : Entry α} {es : List (Entry α)}
      {xs : List Exchange} {ks : Keyspace} (there : ks.get α id = .ok (some e))
      (loaded : e.Loaded id) (rest : Reads α ids es xs) :
      Reads α (id :: ids) (e :: es) (.reading (.entry α id) ks :: xs)

section

variable {α : Type} [Record α] {ids : List String} {es : List (Entry α)} {xs : List Exchange}

theorem Reads.loaded (h : Reads α ids es xs) : ∀ e ∈ es, ∃ id ∈ ids, e.Loaded id := by
  induction h with
  | nil => exact List.forall_mem_nil _
  | absent nothing rest ih =>
    intro e mem
    obtain ⟨id, among, loaded⟩ := ih e mem
    exact ⟨id, List.mem_cons_of_mem _ among, loaded⟩
  | found there loaded rest ih =>
    refine List.forall_mem_cons.2 ⟨⟨_, List.mem_cons_self, loaded⟩, fun e mem => ?_⟩
    obtain ⟨id, among, loaded⟩ := ih e mem
    exact ⟨id, List.mem_cons_of_mem _ among, loaded⟩

end

namespace Procedure.Amid

variable {others : Moment → Keyspace → Prop} {m last : Moment} {trace : List Exchange}

/-- A stored id is read. -/
theorem getStored_singleton {α : Type} [Record α] {id : String} {e : Entry α} {ks : Keyspace}
    (gap : others m ks) (stored : ks.get α id = .ok (some e)) :
    Amid others m (Call.getStored α [id]) (.ok [e]) [.reading (.entry α id) ks]
      (m.next (.reading (.entry α id) ks)) := by
  have read : Amid others m (Client.get α id) _ _ _ := get gap
  rw [stored] at read
  exact .bind read.mapError (.bind .done .done)

/-- Reading several ids only looks.  If no read fails, the stored entries are found. -/
theorem getStored_inv {α : Type} [Record α] (own : ∀ m ks, others m ks → ks.OwnIds α)
    {ids : List String} {result : Except GatewayError (List (Entry α))}
    (run : Amid others m (Call.getStored α ids) result trace last) :
    (∀ x ∈ trace, x.Looks) ∧ ∀ es, result = .ok es → Reads α ids es trace := by
  induction ids generalizing m trace result with
  | nil =>
    cases run
    refine ⟨List.forall_mem_nil _, fun es same => ?_⟩
    obtain rfl := Except.ok.inj same
    exact .nil
  | cons id ids ih =>
    rw [Call.getStored] at run
    rcases run.bind_inv with ⟨e, rfl, read⟩ | ⟨found, first, mid, second, rfl, read, rest⟩
    · obtain ⟨outcome, -, read⟩ := read.mapError_inv
      obtain ⟨ks, gap, -, rfl⟩ := read.get_inv
      exact ⟨List.forall_mem_singleton.2 (.reading _ ks), fun es same => by contradiction⟩
    · obtain ⟨outcome, same, read⟩ := read.mapError_inv
      obtain ⟨ks, gap, here, rfl⟩ := read.get_inv
      have got : ks.get α id = .ok found := by
        rw [← here]
        cases outcome with
        | ok a => exact congrArg Except.ok (Except.ok.inj same).symm
        | error e => contradiction
      rcases rest.bind_inv with ⟨e, rfl, failed⟩ | ⟨es, first, mid', second, rfl, later, rest⟩
      · have looks := (ih failed).1
        exact ⟨List.forall_mem_cons.2 ⟨.reading _ ks, looks⟩, fun es same => by contradiction⟩
      · cases rest
        rw [List.append_nil]
        obtain ⟨looks, reads⟩ := ih later
        refine ⟨List.forall_mem_cons.2 ⟨.reading _ ks, looks⟩, fun es' same => ?_⟩
        obtain rfl := Except.ok.inj same
        cases found with
        | none => exact .absent got (reads es rfl)
        | some e =>
          have stored := Keyspace.get_eq_ok got
          have loaded := Keyspace.loaded_of_entry? stored (own m ks gap id e stored)
          exact .found got loaded (reads es rfl)

end Procedure.Amid

/-! ## Commits -/

/-- What a commit of operations amid others comes to. -/
inductive Commits (others : Moment → Keyspace → Prop) (m : Moment) (id : Nat)
    (settings : Settings) (ops : List Operation) :
    Except StoreError Commit → List Exchange → Moment → Prop where
  /-- The operations cannot be staged. -/
  | unstaged {e : StoreError} (bad : ¬ ∀ op ∈ ops, op.Stageable settings) :
    Commits others m id settings ops (.error e) [] m
  /-- There is nothing to ask for. -/
  | nothing (commands : Operation.allCommands ops = []) (demands : Operation.allDemands ops = []) :
    Commits others m id settings ops (.ok ⟨id, []⟩) [] m
  /-- A requirement fails or a command does not fit, and nothing changes. -/
  | refused {ks : Keyspace} {e : StoreError} {answer : Except StoreError Outcome}
      (gap : others m ks)
      (misfits : (∀ r ∈ Operation.allRequirements ops, r.Holds ks) →
        Keyspace.firstMismatch ks.types (Operation.allCommands ops) ≠ none)
      (idle : (Exchange.executing ops answer ks ks).Idle) :
    Commits others m id settings ops (.error e) [.executing ops answer ks ks]
      (m.next (.executing ops answer ks ks))
  /-- The operations take effect. -/
  | accepted {ks : Keyspace} (gap : others m ks) (staged : ∀ op ∈ ops, op.Stageable settings)
      (holds : ∀ r ∈ Operation.allRequirements ops, r.Holds ks)
      (fits : Keyspace.firstMismatch ks.types (Operation.allCommands ops) = none) :
    Commits others m id settings ops (.ok ⟨id, ks.answers (Operation.allCommands ops)⟩)
      [.committing ops ks] (m.next (.committing ops ks))

namespace Procedure.Amid

variable {others : Moment → Keyspace → Prop} {m last : Moment} {trace : List Exchange}

theorem begin_inv {result : Except StoreError Transaction}
    (run : Amid others m Client.begin result trace last) :
    ∃ ks id settings, others m ks ∧ result = .ok (.empty id settings) ∧
      trace = [.opening id settings ks] ∧ last = m.next (.opening id settings ks) := by
  cases run with
  | ask gap answered rest =>
    obtain ⟨rfl, id, settings, rfl⟩ := answered.begin_inv
    cases rest
    exact ⟨_, id, settings, gap, rfl, rfl, rfl⟩

/-- The batch of operations that could be staged is refused or takes effect. -/
theorem batch_inv {ops : List Operation} {id : Nat} {settings : Settings}
    {result : Except StoreError Commit} (staged : ∀ op ∈ ops, op.Stageable settings)
    (run : Amid others m (.ask (.execute (Keyspace.batchOf ops)) fun outcome =>
      .done (((Transaction.empty id settings).stageAll ops).conclude outcome)) result trace last) :
    Commits others m id settings ops result trace last := by
  cases run with
  | @ask _ _ _ _ answer ks after _ _ gap answered rest =>
    obtain ⟨reply, left⟩ := answered.execute_inv
    by_cases holds : ∀ r ∈ Operation.allRequirements ops, r.Holds ks
    · cases fit : Keyspace.firstMismatch ks.types (Operation.allCommands ops) with
      | none =>
        rw [Keyspace.execute_committed staged holds fit] at reply left
        subst reply left
        dsimp only at rest
        rw [Transaction.conclude_committed id staged] at rest
        cases rest
        exact .accepted gap staged holds fit
      | some misfit =>
        rw [Keyspace.execute_mistyped staged holds fit] at reply left
        obtain rfl : ks = after := left.symm
        subst reply
        cases rest
        exact .refused gap (fun _ => by simp [fit]) ⟨rfl, rfl⟩
    · rw [Keyspace.execute_rejected staged holds] at reply left
      obtain rfl : ks = after := left.symm
      subst reply
      obtain ⟨rejection, -, concluded⟩ := Transaction.conclude_rejected id staged ks
      dsimp only at rest
      rw [concluded] at rest
      cases rest
      exact .refused gap (fun all => absurd all holds) ⟨rfl, rfl⟩

theorem commit_inv {ops : List Operation} {id : Nat} {settings : Settings}
    {result : Except StoreError Commit}
    (run : Amid others m (Client.commit ((Transaction.empty id settings).stageAll ops)) result
      trace last) : Commits others m id settings ops result trace last := by
  by_cases staged : ∀ op ∈ ops, op.Stageable settings
  · rw [Client.commit, Transaction.submission_stageAll id staged] at run
    by_cases empty : Operation.allCommands ops = [] ∧ Operation.allDemands ops = []
    · rw [if_pos empty] at run
      have sameId : ((Transaction.empty id settings).stageAll ops).id = id := by
        rw [Transaction.stageAll_eq (.empty id settings) staged]
        rfl
      dsimp only at run
      rw [sameId] at run
      cases run
      exact .nothing empty.1 empty.2
    · rw [if_neg empty] at run
      exact run.batch_inv staged
  · have deferred : ((Transaction.empty id settings).stageAll ops).deferred ≠ none :=
      fun none => staged (Transaction.deferred_stageAll.1 none).1
    obtain ⟨e, failed⟩ := Option.ne_none_iff_exists'.1 deferred
    rw [Client.commit, Transaction.submission, failed] at run
    cases run
    exact .unstaged staged

theorem transact {ops : List Operation} {ks ks' after : Keyspace}
    {answer : Except StoreError Outcome} (staged : ∀ op ∈ ops, op.Stageable .default)
    (something : ¬ (Operation.allCommands ops = [] ∧ Operation.allDemands ops = []))
    (opens : others m ks) (executes : others (m.next (.opening 1 .default ks)) ks')
    (executed : ks'.execute (Keyspace.batchOf ops) = (answer, after)) :
    Amid others m (Client.transact ops)
      (((Transaction.empty 1 .default).stageAll ops).conclude answer)
      [.opening 1 .default ks, .executing ops answer ks' after]
      ((m.next (.opening 1 .default ks)).next (.executing ops answer ks' after)) := by
  have answered := Answered.execute ks' (Keyspace.batchOf ops)
  rw [executed] at answered
  refine .ask opens (.begin ks) ?_
  change Amid others _ (Client.commit ((Transaction.empty 1 .default).stageAll ops)) _ _ _
  rw [Client.commit, Transaction.submission_stageAll 1 staged, if_neg something]
  exact .ask executes answered .done

/-- A transaction is opened, and then its operations are committed. -/
theorem transact_inv {ops : List Operation} {result : Except StoreError Commit}
    (run : Amid others m (Client.transact ops) result trace last) :
    ∃ ks id settings rest, others m ks ∧ trace = .opening id settings ks :: rest ∧
      Commits others (m.next (.opening id settings ks)) id settings ops result rest last := by
  rcases run.bind_inv with ⟨e, rfl, opened⟩ | ⟨tx, first, mid, second, rfl, opened, rest⟩
  · obtain ⟨_, _, _, _, same, -⟩ := opened.begin_inv
    contradiction
  · obtain ⟨ks, id, settings, gap, same, rfl, rfl⟩ := opened.begin_inv
    obtain rfl := Except.ok.inj same
    exact ⟨ks, id, settings, second, gap, rfl, rest.commit_inv⟩

end Procedure.Amid

end Matchmaking
