import Matchmaking.Proofs.Commit
import Matchmaking.Proofs.Lookups
import Matchmaking.Proofs.World

/-!
# Reasoning about calls side by side

An `Account` is an invariant of ledgers together with what each call may rely on
while others act.  A call is `Safe` if, from a ledger on, each of its steps keeps
the invariant and what the other calls rely on, whatever they did in the
meantime, and its result ends as agreed.

If every call is safe where it starts, the invariant holds in every reachable
world (`Account.holds`).  The rules take a call apart: `bind` and its relatives
along the procedure, `Safe.get` for a read, and `Safe.commit` for a commit, which
is either turned down or does what the table of operations says.
-/

namespace Matchmaking

/-! ## Answers of a store -/

namespace Answered

variable {ks after : Keyspace}

theorem begin_inv {tx : Request.begin.Answer} (h : Answered ks .begin tx after) :
    after = ks ∧ ∃ id settings, tx = Transaction.empty id settings := by
  cases h with
  | serve c store calm => exact ⟨store, _, _, rfl⟩

theorem readString_inv {key : Key} {answer : (Request.readString key).Answer}
    (h : Answered ks (.readString key) answer after) : after = ks ∧ answer = ks.string key := by
  cases h with
  | serve c store calm => exact ⟨store, congrArg (Keyspace.string · key) store⟩

theorem execute_inv {batch : Batch} {answer : (Request.execute batch).Answer}
    (h : Answered ks (.execute batch) answer after) :
    answer = (ks.execute batch).1 ∧ after = (ks.execute batch).2 := by
  cases h with
  | serve c store calm =>
    simp only [Connection.serve, Database.execute, calm, Database.meet, store]
    exact ⟨rfl, rfl⟩

section

variable (ks : Keyspace)

theorem begin : Answered ks .begin (.empty 1 .default) ks :=
  .serve ⟨⟨ks, [], 0⟩, .default, 0⟩ rfl rfl

theorem readString (key : Key) : Answered ks (.readString key) (ks.string key) ks :=
  .serve ⟨⟨ks, [], 0⟩, .default, 0⟩ rfl rfl

theorem execute (batch : Batch) :
    Answered ks (.execute batch) (ks.execute batch).1 (ks.execute batch).2 :=
  .serve ⟨⟨ks, [], 0⟩, .default, 0⟩ rfl rfl

end

end Answered

/-! ## Reads of several ids -/

theorem Call.getStored_append {α : Type} [Record α] (ids ids' : List String) :
    getStored α (ids ++ ids') =
      (getStored α ids >>= fun found => return found ++ (← getStored α ids')) := by
  induction ids with
  | nil => simp [getStored]
  | cons id ids ih =>
    simp only [List.cons_append, getStored, ih, bind_assoc, pure_bind, List.append_assoc]

/-- The players of several requests are read in one go. -/
theorem Gateway.playerRequests_eq (requests : List (Entry PartyRequest)) :
    playerRequests requests =
      Call.getStored PlayerRequest (requests.flatMap (·.record.party.players)) := by
  induction requests with
  | nil => rfl
  | cons request requests ih =>
    rw [playerRequests, ih, List.flatMap_cons, Call.getStored_append]

/-! ## Accounts -/

/-- An invariant and what calls rely on. -/
structure Account where
  /-- What callers promise. -/
  discipline : Discipline
  /-- What is known of reachable ledgers. -/
  Known : Ledger → Prop
  /-- The invariant. -/
  Inv : Ledger → Prop
  /-- What a call relies on between two ledgers. -/
  Rely : Nat → Ledger → Ledger → Prop
  /-- A call can rely on nothing having happened. -/
  refl : ∀ i L, Rely i L L
  /-- A call can rely on two things in a row. -/
  trans : ∀ {i L L' L''}, L'.calls i = L.calls i → Rely i L L' → Rely i L' L'' → Rely i L L''

namespace Account

variable (A : Account)

/-- What others may have done. -/
structure Later (i : Nat) (L L' : Ledger) : Prop where
  record : L'.calls i = L.calls i
  rely : A.Rely i L L'

theorem Later.refl (i : Nat) (L : Ledger) : A.Later i L L := ⟨rfl, A.refl i L⟩

variable {A}

theorem Later.trans {i : Nat} {L L' L'' : Ledger} (h : A.Later i L L') (h' : A.Later i L' L'') :
    A.Later i L L'' :=
  ⟨h'.record.trans h.record, A.trans h.record h.rely h'.rely⟩

variable (A)

/-- A ledger at which a call makes a request. -/
structure Ready (i : Nat) (L : Ledger) : Prop where
  inv : A.Inv L
  known : A.Known L
  asks : A.discipline.Asks L i

/-- What a step of a call keeps. -/
structure Keeps (i : Nat) (L L' : Ledger) : Prop where
  inv : A.Inv L'
  rely : ∀ j, j ≠ i → A.Rely j L L'

end Account

/-- From a ledger on, a call keeps the account, and its result ends as agreed. -/
def Safe (A : Account) (i : Nat) {ε α : Type} (post : Except ε α → Ledger → Prop) :
    Procedure ε α → Ledger → Prop
  | .done result, L => post result L
  | .ask r next, L => ∀ L', A.Later i L L' → A.Ready i L' → ∀ answer ks,
      Answered L'.keyspace r answer ks →
        A.Keeps i L' (L'.answered i r answer ks) ∧
          Safe A i post (next answer) (L'.answered i r answer ks)

namespace Safe

variable {A : Account} {i : Nat} {ε δ α β : Type}

/-! ### Along a procedure -/

theorem mono {post post' : Except ε α → Ledger → Prop}
    (weaker : ∀ result L, post result L → post' result L) {p : Procedure ε α} {L : Ledger}
    (h : Safe A i post p L) : Safe A i post' p L := by
  induction p generalizing L with
  | done result => exact weaker result L h
  | ask r next ih =>
    intro L' later ready answer ks answered
    obtain ⟨keeps, rest⟩ := h L' later ready answer ks answered
    exact ⟨keeps, ih answer rest⟩

theorem bind {post : Except ε β → Ledger → Prop} {p : Procedure ε α} {f : α → Procedure ε β}
    {L : Ledger}
    (h : Safe A i (fun result L => match result with
      | .ok a => Safe A i post (f a) L
      | .error e => post (.error e) L) p L) : Safe A i post (p >>= f) L := by
  change Safe A i post (p.bind f) L
  induction p generalizing L with
  | done result => cases result <;> exact h
  | ask r next ih =>
    intro L' later ready answer ks answered
    obtain ⟨keeps, rest⟩ := h L' later ready answer ks answered
    exact ⟨keeps, ih answer rest⟩

theorem tryCatch {post : Except ε α → Ledger → Prop} {p : Procedure ε α}
    {f : ε → Procedure ε α} {L : Ledger}
    (h : Safe A i (fun result L => match result with
      | .ok a => post (.ok a) L
      | .error e => Safe A i post (f e) L) p L) : Safe A i post (tryCatch p f) L := by
  change Safe A i post (p.handle f) L
  induction p generalizing L with
  | done result => cases result <;> exact h
  | ask r next ih =>
    intro L' later ready answer ks answered
    obtain ⟨keeps, rest⟩ := h L' later ready answer ks answered
    exact ⟨keeps, ih answer rest⟩

theorem mapError {post : Except δ α → Ledger → Prop} {p : Procedure ε α} {f : ε → δ} {L : Ledger}
    (h : Safe A i (fun result => post (result.mapError f)) p L) :
    Safe A i post (p.mapError f) L := by
  induction p generalizing L with
  | done result => exact h
  | ask r next ih =>
    intro L' later ready answer ks answered
    obtain ⟨keeps, rest⟩ := h L' later ready answer ks answered
    exact ⟨keeps, ih answer rest⟩

theorem attempt {post : Except δ (Except ε α) → Ledger → Prop} {p : Procedure ε α} {L : Ledger}
    (h : Safe A i (fun result => post (.ok result)) p L) : Safe A i post p.attempt L := by
  induction p generalizing L with
  | done result => exact h
  | ask r next ih =>
    intro L' later ready answer ks answered
    obtain ⟨keeps, rest⟩ := h L' later ready answer ks answered
    exact ⟨keeps, ih answer rest⟩

/-- Calls that wait stay safe while others act. -/
theorem later {post : Except ε α → Ledger → Prop} {r : Request} {next : r.Answer → Procedure ε α}
    {L L' : Ledger} (h : Safe A i post (.ask r next) L) (after : A.Later i L L') :
    Safe A i post (.ask r next) L' :=
  fun L'' later => h L'' (after.trans later)

/-! ### Requests -/

/-- A call that makes a request changes nothing in the ledger, because it works on
what it has begun. -/
def Settled (i : Nat) (L : Ledger) : Prop := ∀ p, L.calls i = some p → p.ask = p

theorem Settled.ask_eq {L : Ledger} (h : Settled i L) : L.ask i = L := by
  have same : (L.calls i).map Progress.ask = L.calls i := by
    cases record : L.calls i with
    | none => rfl
    | some p => exact congrArg some (h p record)
  rw [Ledger.ask, Ledger.update, same, Function.update_eq_self]

theorem settled_ask (i : Nat) (L : Ledger) : Settled i (L.ask i) := by
  intro p record
  have made : (L.calls i).map Progress.ask = some p := (L.calls_update_self i _).symm.trans record
  obtain ⟨q, -, rfl⟩ := Option.map_eq_some_iff.1 made
  unfold Progress.ask
  split
  next something =>
    rw [if_pos]
    exact something
  next => rfl

theorem Settled.later {L L' : Ledger} (h : Settled i L) (later : A.Later i L L') : Settled i L' :=
  fun p record => h p (later.record.symm.trans record)

/-- The call is under way and does not assign. -/
def Plain (i : Nat) (L : Ledger) : Prop :=
  ∃ p, L.calls i = some p ∧ ∀ assignments, p.activity ≠ .assign assignments

/-- A call that does not assign works on no assignment. -/
theorem Plain.next?_eq {L : Ledger} (h : Plain i L) {p : Progress} (record : L.calls i = some p) :
    p.next? = none := by
  obtain ⟨q, record', other⟩ := h
  obtain rfl := Option.some.inj (record.symm.trans record')
  unfold Progress.next?
  split
  next assignments same => exact absurd same (other assignments)
  next => rfl

theorem Plain.settled {L : Ledger} (h : Plain i L) : Settled i L := by
  intro p record
  rw [Progress.ask, h.next?_eq record]
  rfl

theorem Plain.later {L L' : Ledger} (h : Plain i L) (later : A.Later i L L') : Plain i L' := by
  obtain ⟨p, record, other⟩ := h
  exact ⟨p, later.record.trans record, other⟩

theorem plain_start {L : Ledger} {client : Nat} {activity : Activity}
    (other : ∀ assignments, activity ≠ .assign assignments) : Plain i (L.start i client activity) :=
  ⟨_, Function.update_self i _ L.calls, other⟩

/-- What a commit of operations does to a ledger. -/
def committed (L : Ledger) (i : Nat) (ops : List Operation) : Ledger :=
  L.commit i (Operation.allCommands ops) (L.keyspace.answers (Operation.allCommands ops))
    (Operation.allEffects L.keyspace ops)

theorem Plain.update {L : Ledger} (h : Plain i L) {f : Progress → Progress}
    (kept : ∀ p, (f p).activity = p.activity) : Plain i (L.update i f) := by
  obtain ⟨p, record, other⟩ := h
  refine ⟨f p, ?_, fun assignments => (kept p).symm ▸ other assignments⟩
  rw [L.calls_update_self, record]
  rfl

theorem Plain.committed {L : Ledger} (h : Plain i L) (ops : List Operation) :
    Plain i (committed L i ops) :=
  h.update fun _ => rfl

theorem Plain.answered {L : Ledger} (h : Plain i L) {r : Request} {answer : r.Answer}
    {ks : Keyspace} : Plain i (L.answered i r answer ks) := by
  have asked : Plain i (L.ask i) := h.update Progress.activity_ask
  unfold Ledger.answered
  split
  · exact asked.update fun _ => rfl
  · exact asked

section

variable {post : Except StoreError α → Ledger → Prop} {L : Ledger}

/-- A read, with the request for it. -/
theorem get_asking {β : Type} [Record β] {post : Except StoreError (Option (Entry β)) → Ledger → Prop}
    {id : String}
    (h : ∀ L', A.Later i L L' → A.Ready i L' →
      A.Keeps i L' (L'.ask i) ∧ post (L'.keyspace.get β id) (L'.ask i)) :
    Safe A i post (Client.get β id) L := by
  intro L' later ready answer ks answered
  obtain ⟨-, rfl⟩ := answered.readString_inv
  obtain ⟨keeps, found⟩ := h L' later ready
  refine ⟨keeps, ?_⟩
  unfold Keyspace.get at found
  cases text : L'.keyspace.string (.entry β id) with
  | ok text =>
    rw [text] at found
    exact found
  | error e =>
    rw [text] at found
    exact found

/-- A read of an id finds what is stored under it at that moment. -/
theorem get {β : Type} [Record β] {post : Except StoreError (Option (Entry β)) → Ledger → Prop}
    {id : String} (settled : Settled i L)
    (h : ∀ L', A.Later i L L' → A.Ready i L' → post (L'.keyspace.get β id) L') :
    Safe A i post (Client.get β id) L := by
  refine get_asking fun L' later ready => ?_
  rw [(settled.later later).ask_eq]
  exact ⟨⟨ready.inv, fun j _ => A.refl j L'⟩, h L' later ready⟩

theorem begin {post : Except StoreError Transaction → Ledger → Prop} (settled : Settled i L)
    (h : ∀ L', A.Later i L L' → A.Ready i L' → ∀ id settings,
      post (.ok (.empty id settings)) L') : Safe A i post Client.begin L := by
  intro L' later ready tx ks answered
  obtain ⟨-, id, settings, rfl⟩ := answered.begin_inv
  have ask : L'.answered i .begin (.empty id settings) ks = L' := (settled.later later).ask_eq
  rw [ask]
  exact ⟨⟨ready.inv, fun j _ => A.refl j L'⟩, h L' later ready id settings⟩

/-- A commit of staged operations.  It may be turned down, because they could not be
staged or because a requirement fails or a command does not fit, and then changes
nothing.  Otherwise it does what the table says. -/
theorem commit {post : Except StoreError Commit → Ledger → Prop} (ops : List Operation)
    {id : Nat} {settings : Settings} (settled : Settled i L)
    (unstaged : (¬ ∀ op ∈ ops, op.Stageable settings) → ∀ e, post (.error e) L)
    (nothing : Operation.allCommands ops = [] → Operation.allDemands ops = [] →
      post (.ok ⟨id, []⟩) L)
    (refused : ∀ L', A.Later i L L' → A.Ready i L' →
      ((∀ r ∈ Operation.allRequirements ops, r.Holds L'.keyspace) →
        Keyspace.firstMismatch L'.keyspace.types (Operation.allCommands ops) ≠ none) →
      ∀ e, post (.error e) L')
    (accepted : ∀ L', A.Later i L L' → A.Ready i L' →
      (∀ op ∈ ops, op.Stageable settings) →
      (∀ r ∈ Operation.allRequirements ops, r.Holds L'.keyspace) →
      Keyspace.firstMismatch L'.keyspace.types (Operation.allCommands ops) = none →
      A.Keeps i L' (committed L' i ops) ∧
        post (.ok ⟨id, L'.keyspace.answers (Operation.allCommands ops)⟩) (committed L' i ops)) :
    Safe A i post (Client.commit ((Transaction.empty id settings).stageAll ops)) L := by
  by_cases staged : ∀ op ∈ ops, op.Stageable settings
  · rw [Client.commit, Transaction.submission_stageAll id staged]
    by_cases empty : Operation.allCommands ops = [] ∧ Operation.allDemands ops = []
    · rw [if_pos empty]
      have sameId : ((Transaction.empty id settings).stageAll ops).id = id := by
        rw [Transaction.stageAll_eq (.empty id settings) staged]
        rfl
      dsimp only
      rw [sameId]
      exact nothing empty.1 empty.2
    · rw [if_neg empty]
      intro L' later ready answer ks answered
      have ask := (settled.later later).ask_eq
      have stays : A.Keeps i L' L' := ⟨ready.inv, fun j _ => A.refl j L'⟩
      obtain ⟨rfl, rfl⟩ := answered.execute_inv
      by_cases holds : ∀ r ∈ Operation.allRequirements ops, r.Holds L'.keyspace
      · cases fit : Keyspace.firstMismatch L'.keyspace.types (Operation.allCommands ops) with
        | none =>
          rw [Keyspace.execute_committed staged holds fit]
          simp only [Ledger.answered, ask]
          obtain ⟨keeps, done⟩ := accepted L' later ready staged holds fit
          refine ⟨keeps, ?_⟩
          rw [Transaction.conclude_committed id staged]
          exact done
        | some misfit =>
          rw [Keyspace.execute_mistyped staged holds fit]
          simp only [Ledger.answered, ask]
          exact ⟨stays, refused L' later ready (fun _ => by simp [fit]) _⟩
      · rw [Keyspace.execute_rejected staged holds]
        simp only [Ledger.answered, ask]
        refine ⟨stays, ?_⟩
        obtain ⟨rejection, -, concluded⟩ :=
          Transaction.conclude_rejected id staged L'.keyspace
        rw [concluded]
        exact refused L' later ready (fun all => absurd all holds) _
  · have deferred : ((Transaction.empty id settings).stageAll ops).deferred ≠ none :=
      fun none => staged (Transaction.deferred_stageAll.1 none).1
    obtain ⟨e, failed⟩ := Option.ne_none_iff_exists'.1 deferred
    rw [Client.commit, Transaction.submission, failed]
    exact unstaged staged e

/-- A transaction.  It fails where a commit of its operations does, and then changes
nothing. -/
theorem transact {post : Except StoreError Commit → Ledger → Prop} {ops : List Operation}
    (settled : Settled i L)
    (nothing : Operation.allCommands ops = [] → Operation.allDemands ops = [] →
      ∀ L', A.Later i L L' → A.Ready i L' → ∀ id, post (.ok ⟨id, []⟩) L')
    (failed : ∀ L', A.Later i L L' → A.Ready i L' →
      ((∀ settings, ∀ op ∈ ops, op.Stageable settings) →
        (∀ r ∈ Operation.allRequirements ops, r.Holds L'.keyspace) →
        Keyspace.firstMismatch L'.keyspace.types (Operation.allCommands ops) ≠ none) →
      ∀ e, post (.error e) L')
    (accepted : ∀ L', A.Later i L L' → A.Ready i L' →
      (∀ r ∈ Operation.allRequirements ops, r.Holds L'.keyspace) →
      A.Keeps i L' (committed L' i ops) ∧
        ∀ id, post (.ok ⟨id, L'.keyspace.answers (Operation.allCommands ops)⟩)
          (committed L' i ops)) :
    Safe A i post (Client.transact ops) L := by
  refine bind (begin settled fun L' later ready id settings => ?_)
  refine commit ops (settled.later later) ?_ ?_ ?_ ?_
  · exact fun unstaged => failed L' later ready fun staged => absurd (staged settings) unstaged
  · exact fun commands demands => nothing commands demands L' later ready id
  · exact fun L'' later' ready' refused => failed L'' (later.trans later') ready' fun _ => refused
  · intro L'' later' ready' _ holds _
    obtain ⟨keeps, done⟩ := accepted L'' (later.trans later') ready' holds
    exact ⟨keeps, done id⟩

/-! ### Reads of calls -/

/-- A read that may find an entry. -/
theorem find {β : Type} [Record β] {post : Except GatewayError (Option (Entry β)) → Ledger → Prop}
    {id : String} (settled : Settled i L)
    (found : ∀ L', A.Later i L L' → A.Ready i L' → post (.ok (L'.keyspace.entry? β id)) L')
    (failed : ∀ L' e, A.Later i L L' → A.Ready i L' → post (.error e) L') :
    Safe A i post (Call.read (Client.get β id)) L := by
  refine mapError (get settled fun L' later ready => ?_)
  cases answer : L'.keyspace.get β id with
  | error e => exact failed L' _ later ready
  | ok entry =>
    have there := found L' later ready
    rw [Keyspace.get_eq_ok answer] at there
    exact there

/-- A read that needs an entry, with the request for it. -/
theorem getOr_asking {β : Type} [Record β] {post : Except GatewayError (Entry β) → Ledger → Prop}
    {id : String} {missing : GatewayError}
    (h : ∀ L', A.Later i L L' → A.Ready i L' → A.Keeps i L' (L'.ask i) ∧
      (∀ e, L'.keyspace.entry? β id = some e → post (.ok e) (L'.ask i)) ∧
        ∀ e, post (.error e) (L'.ask i)) :
    Safe A i post (Call.getOr β id missing) L := by
  refine bind (mapError (get_asking fun L' later ready => ?_))
  obtain ⟨keeps, found, failed⟩ := h L' later ready
  refine ⟨keeps, ?_⟩
  cases answer : L'.keyspace.get β id with
  | error e => exact failed _
  | ok entry =>
    cases entry with
    | none => exact failed _
    | some e => exact found e (Keyspace.get_eq_ok answer)

/-- A read that needs an entry. -/
theorem getOr {β : Type} [Record β] {post : Except GatewayError (Entry β) → Ledger → Prop}
    {id : String} {missing : GatewayError} (settled : Settled i L)
    (found : ∀ L' e, A.Later i L L' → A.Ready i L' → L'.keyspace.entry? β id = some e →
      post (.ok e) L')
    (failed : ∀ L' e, A.Later i L L' → A.Ready i L' → post (.error e) L') :
    Safe A i post (Call.getOr β id missing) L := by
  refine getOr_asking fun L' later ready => ?_
  rw [(settled.later later).ask_eq]
  exact ⟨⟨ready.inv, fun j _ => A.refl j L'⟩, fun e stored => found L' e later ready stored,
    fun e => failed L' e later ready⟩

/-- Reads of several ids.  What is known of each id at the moment of its read is known
of the entry that was found, or of none having been found. -/
theorem getStored {β : Type} [Record β] {post : Except GatewayError (List (Entry β)) → Ledger → Prop}
    {ids : List String} (Fact : String → Option (Entry β) → Prop) (settled : Settled i L)
    (facts : ∀ L', A.Later i L L' → A.Ready i L' → ∀ id ∈ ids,
      Fact id (L'.keyspace.entry? β id))
    (done : ∀ L' es, A.Later i L L' → (A.Inv L → A.Inv L') →
      (∀ e ∈ es, ∃ id ∈ ids, Fact id (some e)) →
      (∀ id ∈ ids, Fact id none ∨ ∃ e ∈ es, Fact id (some e)) → post (.ok es) L')
    (failed : ∀ L' e, A.Later i L L' → A.Ready i L' → post (.error e) L') :
    Safe A i post (Call.getStored β ids) L := by
  induction ids generalizing post L with
  | nil => exact done L [] (.refl A i L) id (by simp) (by simp)
  | cons id ids ih =>
    refine bind (find settled (fun L₁ later ready => ?_) failed)
    have here := facts L₁ later ready id List.mem_cons_self
    generalize L₁.keyspace.entry? β id = found at here
    refine bind (ih (settled.later later) ?_ ?_ ?_)
    · exact fun L₂ later' ready' x hx =>
        facts L₂ (later.trans later') ready' x (List.mem_cons_of_mem id hx)
    · intro L₂ es later' inv sound complete
      refine done L₂ (found.toList ++ es) (later.trans later') (fun _ => inv ready.inv) ?_ ?_
      · intro e he
        rcases List.mem_append.1 he with he | he
        · exact ⟨id, List.mem_cons_self, by rwa [← Option.mem_toList.1 he]⟩
        · obtain ⟨x, hx, fact⟩ := sound e he
          exact ⟨x, List.mem_cons_of_mem id hx, fact⟩
      · intro x hx
        rcases List.mem_cons.1 hx with rfl | hx
        · cases found with
          | none => exact .inl here
          | some e => exact .inr ⟨e, by simp, here⟩
        · refine (complete x hx).imp_right ?_
          rintro ⟨e, he, fact⟩
          exact ⟨e, List.mem_append_right _ he, fact⟩
    · exact fun L₂ e later' => failed L₂ e (later.trans later')

/-- Reads of several ids that are all stored. -/
theorem getAll {β : Type} [Record β] {post : Except GatewayError (List (Entry β)) → Ledger → Prop}
    {ids : List String} (settled : Settled i L)
    (there : ∀ L', A.Later i L L' → A.Ready i L' → ∀ id ∈ ids,
      ∃ e, L'.keyspace.entry? β id = some e ∧ e.Loaded id)
    (done : ∀ L' es, A.Later i L L' → (A.Inv L → A.Inv L') →
      (∀ e ∈ es, Entry.Loaded e e.id) → (∀ id, id ∈ es.map Entry.id ↔ id ∈ ids) → post (.ok es) L')
    (failed : ∀ L' e, A.Later i L L' → A.Ready i L' → post (.error e) L') :
    Safe A i post (Call.getStored β ids) L := by
  refine getStored (fun id found => ∃ e, found = some e ∧ e.Loaded id) settled there
    (fun L' es later inv sound complete => done L' es later inv (fun e he => ?_) fun id => ?_) failed
  · obtain ⟨id, -, e', same, loaded⟩ := sound e he
    obtain rfl := Option.some.inj same
    exact loaded.id ▸ loaded
  · constructor
    · intro mem
      obtain ⟨e, he, rfl⟩ := List.mem_map.1 mem
      obtain ⟨id, hid, e', same, loaded⟩ := sound e he
      obtain rfl := Option.some.inj same
      exact loaded.id ▸ hid
    · intro hid
      rcases complete id hid with ⟨e, none, -⟩ | ⟨e, he, e', same, loaded⟩
      · contradiction
      · obtain rfl := Option.some.inj same
        exact List.mem_map.2 ⟨e, he, loaded.id⟩

end

end Safe

/-! ## Every reachable world -/

namespace Account

variable {A : Account}

/-- What is agreed on the result of a call: returning it keeps the account. -/
def close (A : Account) (i : Nat) (result : Except GatewayError (List (Entry PartyRequest)))
    (L : Ledger) : Prop := A.Keeps i L (L.finish i result)

/-- The invariant holds, and every call that waits is safe. -/
structure Holds (A : Account) (w : World) : Prop where
  inv : A.Inv w.ledger
  safe : ∀ i r next, w.rest i = .ask r next → Safe A i (A.close i) (.ask r next) w.ledger

/-- Where others stay as they are, those that wait stay safe. -/
theorem Holds.others {w : World} (h : A.Holds w) {i : Nat} {L : Ledger}
    {rest : Call (List (Entry PartyRequest))} (records : ∀ j, j ≠ i → L.calls j = w.ledger.calls j)
    (keeps : A.Keeps i w.ledger L)
    (own : ∀ r next, rest = .ask r next → Safe A i (A.close i) (.ask r next) L) :
    A.Holds ⟨L, Function.update w.rest i rest⟩ := by
  refine ⟨keeps.inv, fun j r next waits => ?_⟩
  by_cases same : j = i
  · subst same
    have here : Function.update w.rest j rest j = rest := Function.update_self j rest w.rest
    exact own r next (here.symm.trans waits)
  · have waits : w.rest j = .ask r next := (Function.update_of_ne same _ _).symm.trans waits
    exact (h.safe j r next waits).later ⟨records j same, keeps.rely j same⟩

/-- If every call is safe where it starts, the account holds in every reachable
world. -/
theorem holds (initial : A.Inv .initial)
    (starts : ∀ L i client activity, A.Inv L → L.calls i = none → A.discipline.Starts activity →
      A.Keeps i L (L.start i client activity) ∧
        Safe A i (A.close i) activity.call (L.start i client activity))
    (known : ∀ w, World.Reachable A.discipline w → A.Known w.ledger) {w : World}
    (reach : World.Reachable A.discipline w) : A.Holds w := by
  induction reach with
  | initial => exact ⟨initial, fun i r next waits => by contradiction⟩
  | @step w w' reach step ih =>
    cases step with
    | start i client activity new promised =>
      obtain ⟨keeps, safe⟩ := starts w.ledger i client activity ih.inv new promised
      refine ih.others (fun j other => Function.update_of_ne other _ _) keeps ?_
      intro r next form
      rw [← form]
      exact safe
    | advance i r next waits asks answer ks answered =>
      obtain ⟨keeps, rest⟩ := ih.safe i r next waits w.ledger (.refl A i w.ledger)
        ⟨ih.inv, known w reach, asks⟩ answer ks answered
      have records (j : Nat) (other : j ≠ i) :
          (w.ledger.answered i r answer ks).calls j = w.ledger.calls j :=
        w.ledger.calls_answered_of_ne r answer ks other
      unfold World.advance
      cases form : next answer with
      | ask r' next' =>
        refine ih.others records keeps fun r'' next'' same => ?_
        rw [form, same] at rest
        exact rest
      | done result =>
        rw [form] at rest
        refine ih.others
          (fun j other => (Ledger.calls_update_of_ne _ _ other).trans (records j other)) ?_ ?_
        · refine ⟨rest.inv, fun j other => ?_⟩
          exact A.trans (records j other) (keeps.rely j other) (rest.rely j other)
        · intro r'' next'' same
          contradiction

end Account

end Matchmaking
