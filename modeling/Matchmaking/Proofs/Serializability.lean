import Matchmaking.Proofs.Revisions

/-!
# Revisions by many clients

Any number of clients revise entries of one store (`Race`).  Each works on a revision
at a time, and requests of different clients are answered in any order.  An attempt
that is aborted starts over with its reads.

What an attempt read may have changed and changed back, and need never have been
stored together.  The commit compares texts only, and that is enough: the store is the
one that the committed revisions make alone, one after the other in the order of their
commits (`Serial`).  The invariant `Race.Inv` says so, and says of every client how far
its attempt is (`Work.Sound`).  What one answer leads to is `Turn`.
-/

namespace Matchmaking

variable {ι : Type} {α : ι → Type} [∀ t, Record (α t)]

/-! ## Clients at work -/

/-- The text that an answer shows, with its key. -/
def Request.reading : (r : Request) → r.Answer → List (Key × String)
  | .readString key, .ok (some text) => [(key, text)]
  | _, _ => []

/-- What a client is doing. -/
structure Work (α : ι → Type) [∀ t, Record (α t)] where
  /-- The revision. -/
  revision : Revision α
  /-- The texts that this attempt has read, with their keys. -/
  read : List (Key × String)
  /-- What is left of the attempt. -/
  rest : StoreCall (Option Commit)

namespace Work

/-- An attempt starts. -/
def start (r : Revision α) : Work α := ⟨r, [], r.attempt⟩

/-- What the client does after an answer.  It starts over if the attempt was aborted. -/
def after (w : Work α) (r : Request) (answer : r.Answer) :
    StoreCall (Option Commit) → Option (Work α)
  | .ask r' next => some ⟨w.revision, w.read ++ r.reading answer, .ask r' next⟩
  | .done (.ok _) => none
  | .done (.error e) => if e.hasKind .aborted then some (.start w.revision) else none

/-- The revision, if the attempt has committed it. -/
def committed (w : Work α) : StoreCall (Option Commit) → List (Revision α)
  | .done (.ok (some _)) => [w.revision]
  | _ => []

end Work

/-- A store and the clients that revise its entries. -/
structure Race (α : ι → Type) [∀ t, Record (α t)] where
  /-- The store. -/
  keyspace : Keyspace
  /-- What each client is doing. -/
  clients : Nat → Option (Work α)
  /-- The revisions that were committed, in order. -/
  log : List (Revision α)

namespace Race

/-- A store that nobody works on. -/
def initial (ks : Keyspace) : Race α := ⟨ks, fun _ => none, []⟩

/-- A client starts a revision. -/
def start (s : Race α) (i : Nat) (r : Revision α) : Race α :=
  { s with clients := Function.update s.clients i (some (.start r)) }

/-- A client goes on with an answer. -/
def advance (s : Race α) (i : Nat) (w : Work α) (r : Request) (answer : r.Answer) (ks : Keyspace)
    (rest : StoreCall (Option Commit)) : Race α :=
  ⟨ks, Function.update s.clients i (w.after r answer rest), s.log ++ w.committed rest⟩

/-- The steps of a race. -/
inductive Step (s : Race α) : Race α → Prop where
  /-- A client that is idle starts a revision. -/
  | start (i : Nat) (r : Revision α) (idle : s.clients i = none) : Step s (s.start i r)
  /-- A request of a client is answered. -/
  | advance (i : Nat) (w : Work α) (works : s.clients i = some w) (r : Request)
      (next : r.Answer → StoreCall (Option Commit)) (waits : w.rest = .ask r next)
      (answer : r.Answer) (ks : Keyspace) (answered : Answered s.keyspace r answer ks) :
      Step s (s.advance i w r answer ks (next answer))

/-- The races that steps lead to from a store. -/
inductive Reachable (ks : Keyspace) : Race α → Prop where
  | initial : Reachable ks (initial ks)
  | step {s s' : Race α} (reach : Reachable ks s) (step : Step s s') : Reachable ks s'

end Race

/-! ## What one answer leads to -/

/-- How far an attempt is. -/
inductive Revision.Stage (r : Revision α) (loaded : List (Loaded α)) :
    List (Target ι) → StoreCall (Option Commit) → Prop where
  /-- Some entries are still to be read. -/
  | reading (targets : List (Target ι)) : Stage r loaded targets (r.goOn loaded targets)
  /-- The batch is still to be executed. -/
  | committing (id : Nat) (settings : Settings) :
      Stage r loaded [] (r.committing loaded id settings)

/-- An attempt that is under way waits for an answer. -/
theorem Revision.Stage.waits {r : Revision α} {loaded : List (Loaded α)}
    {targets : List (Target ι)} {rest : StoreCall (Option Commit)}
    (h : r.Stage loaded targets rest) : ∃ request next, rest = .ask request next := by
  cases h with
  | reading targets =>
    cases targets with
    | nil => exact ⟨_, _, goOn_nil⟩
    | cons target targets => exact ⟨_, _, goOn_cons target targets⟩
  | committing => exact ⟨_, _, rfl⟩

theorem Revision.Stage.ne_done {r : Revision α} {loaded : List (Loaded α)}
    {targets : List (Target ι)} {rest : StoreCall (Option Commit)}
    (h : r.Stage loaded targets rest) (result : Except StoreError (Option Commit)) :
    rest ≠ .done result := by
  obtain ⟨request, next, rfl⟩ := h.waits
  exact nofun

/-- What is known of a client that has read some entries and has others to read. -/
structure Work.Sound (w : Work α) (ks : Keyspace) (loaded : List (Loaded α))
    (targets : List (Target ι)) : Prop where
  covers : loaded.map Loaded.target ++ targets = w.revision.targets
  read : w.read = loaded.map fun l => (l.key, l.text)
  genuine : ∀ l ∈ loaded, l.Genuine
  texts : ∀ l ∈ loaded, ks.HoldsText l.key
  stage : w.revision.Stage loaded targets w.rest

/-- An attempt has read all its keys, and they hold the texts that it read. -/
structure Work.Found (w : Work α) (ks : Keyspace) : Prop where
  keys : w.read.map Prod.fst = w.revision.targets.map (Target.key α)
  texts : ∀ key text, (key, text) ∈ w.read → ks[key]? = some (.string text)

/-- What an answer leads to. -/
inductive Turn (ks : Keyspace) (w : Work α) (r : Request) (answer : r.Answer) :
    StoreCall (Option Commit) → Keyspace → Prop where
  /-- The attempt goes on. -/
  | goesOn (rest : StoreCall (Option Commit)) (loaded : List (Loaded α))
      (targets : List (Target ι))
      (sound : Work.Sound ⟨w.revision, w.read ++ r.reading answer, rest⟩ ks loaded targets) :
      Turn ks w r answer rest ks
  /-- A read finds nothing, or a value that is no text. -/
  | stops (key : Key) (reads : r = .readString key) (result : Except StoreError (Option Commit))
      (nothing : ∀ commit, result ≠ .ok (some commit)) : Turn ks w r answer (.done result) ks
  /-- A text has changed. -/
  | aborts (changed : ¬ w.Found ks) : Turn ks w r answer (.done (.error (.rejected .aborted))) ks
  /-- The revision is committed. -/
  | commits (commit : Commit) (loaded : List (Loaded α)) (finds : w.revision.Finds ks loaded)
      (read : w.read = loaded.map fun l => (l.key, l.text)) :
      Turn ks w r answer (.done (.ok (some commit)))
        (Operation.allEffects ks (w.revision.operations loaded))

namespace Work.Sound

variable {w : Work α} {ks ks' : Keyspace} {loaded : List (Loaded α)} {targets : List (Target ι)}

theorem start (r : Revision α) (ks : Keyspace) : (Work.start r).Sound ks [] r.targets where
  covers := rfl
  read := rfl
  genuine _ mem := absurd mem List.not_mem_nil
  texts _ mem := absurd mem List.not_mem_nil
  stage := .reading r.targets

/-- Texts that stay texts are all that a client relies on. -/
theorem later (h : w.Sound ks loaded targets)
    (texts : ∀ key, ks.HoldsText key → ks'.HoldsText key) : w.Sound ks' loaded targets :=
  { h with texts := fun l hl => texts l.key (h.texts l hl) }

theorem finds (h : w.Sound ks loaded []) (current : ∀ l ∈ loaded, l.Current ks) :
    w.revision.Finds ks loaded :=
  ⟨(List.append_nil _).symm.trans h.covers, h.genuine, current⟩

/-- The transaction is open. -/
theorem opened (h : w.Sound ks loaded []) (answer : Request.begin.Answer) (id : Nat)
    (settings : Settings) :
    Turn ks w .begin answer (if loaded = [] then .done (.ok (some ⟨id, []⟩))
      else w.revision.committing loaded id settings) ks := by
  split
  next nothing =>
    subst nothing
    exact .commits ⟨id, []⟩ [] (h.finds nofun) h.read
  next =>
    have read : w.read ++ [] = _ := (List.append_nil _).trans h.read
    exact .goesOn _ loaded [] ⟨h.covers, read, h.genuine, h.texts, .committing id settings⟩

/-- An entry is read. -/
theorem readOne {target : Target ι} (h : w.Sound ks loaded (target :: targets))
    (faithful : ks.Faithful α) :
    let key := target.key α
    Turn ks w (.readString key) (ks.string key)
      (w.revision.afterRead loaded target targets (ks.string key)) ks := by
  intro key
  cases stored : ks[key]? with
  | none =>
    have answer : ks.string key = .ok none := by rw [Keyspace.string, stored]
    rw [answer]
    exact .stops key rfl (.ok none) (by simp)
  | some v =>
    cases v with
    | string text =>
      have answer : ks.string key = .ok (some text) := by rw [Keyspace.string, stored]
      obtain ⟨e, read, own⟩ := faithful target.type target.id text stored
      obtain ⟨l, rfl, rfl, genuine⟩ :
          ∃ l : Loaded α, l.target = target ∧ l.text = text ∧ l.Genuine := by
        have same : (⟨target.type, e⟩ : Loaded α).text = text := by
          rw [Loaded.text, Entry.previous_eq read]
          rfl
        refine ⟨⟨target.type, e⟩, ?_, same, ?_⟩
        · rw [Loaded.target, own]
        · rw [Loaded.Genuine, same, read]
      rw [answer, Revision.afterRead_eq genuine]
      -- The text can be replaced before the commit.  What lasts is that the key holds one.
      refine .goesOn _ (loaded ++ [l]) targets ⟨?_, ?_, ?_, ?_, .reading targets⟩
      · rw [← h.covers]
        simp
      · rw [List.map_append, h.read]
        rfl
      · exact List.forall_mem_append.2 ⟨h.genuine, List.forall_mem_singleton.2 genuine⟩
      · exact List.forall_mem_append.2 ⟨h.texts, List.forall_mem_singleton.2 ⟨_, stored⟩⟩
    | _ =>
      have answer : ks.string key = .error (.wrongType key .string) := by
        rw [Keyspace.string, stored]
      rw [answer]
      exact .stops key rfl (.error _) (by simp)

/-- The batch is executed. -/
theorem executed (h : w.Sound ks loaded []) (id : Nat) (settings : Settings) :
    let batch := Keyspace.batchOf (w.revision.operations loaded)
    let tx := (Transaction.empty id settings).stageAll (w.revision.operations loaded)
    Turn ks w (.execute batch) (ks.execute batch).1 (do
      let commit ← Procedure.done (tx.conclude (ks.execute batch).1)
      return some commit) (ks.execute batch).2 := by
  intro batch tx
  -- A text that changed and changed back counts as current, and rightly so.
  by_cases current : ∀ l ∈ loaded, l.Current ks
  · have staged := w.revision.stageable loaded settings
    have executed : ks.execute batch = _ := Revision.execute_current current
    have concluded := Transaction.conclude_committed id staged
      (ks.answers (Operation.allCommands (w.revision.operations loaded)))
    rw [executed]
    dsimp only [tx]
    rw [concluded]
    exact .commits _ loaded (h.finds current) h.read
  · obtain ⟨same, aborted⟩ := Revision.execute_changed (r := w.revision) h.texts current id settings
    rw [same, aborted]
    refine .aborts fun found => current fun l hl => found.texts l.key l.text ?_
    rw [h.read]
    exact List.mem_map_of_mem hl

/-- One answer to a client that is as it should be. -/
theorem turn (h : w.Sound ks loaded targets) (faithful : ks.Faithful α) {r : Request}
    {next : r.Answer → StoreCall (Option Commit)} (waits : w.rest = .ask r next)
    {answer : r.Answer} (answered : Answered ks r answer ks') :
    Turn ks w r answer (next answer) ks' := by
  have stage := h.stage
  generalize form : w.rest = rest at stage
  rw [form] at waits
  cases stage with
  | reading targets =>
    cases targets with
    | nil =>
      rw [Revision.goOn_nil] at waits
      cases waits
      obtain ⟨rfl, id, settings, rfl⟩ := answered.begin_inv
      have opened := h.opened (Transaction.empty id settings) id settings
      rw [← Revision.commit_operations] at opened
      exact opened
    | cons target targets =>
      rw [Revision.goOn_cons] at waits
      cases waits
      obtain ⟨rfl, rfl⟩ := answered.readString_inv
      exact h.readOne faithful
  | committing id settings =>
    cases waits
    obtain ⟨rfl, rfl⟩ := answered.execute_inv
    exact h.executed id settings

end Work.Sound

/-! ## The invariant -/

/-- A store that revisions make alone, one after the other. -/
inductive Serial (ks₀ : Keyspace) : List (Revision α) → Keyspace → Prop where
  | nil : Serial ks₀ [] ks₀
  | snoc {log : List (Revision α)} {ks : Keyspace} (earlier : Serial ks₀ log ks) (r : Revision α)
      (loaded : List (Loaded α)) (finds : r.Finds ks loaded) :
      Serial ks₀ (log ++ [r]) (Operation.allEffects ks (r.operations loaded))

namespace Race

/-- What is known of a race. -/
structure Inv (ks₀ : Keyspace) (s : Race α) : Prop where
  serial : Serial ks₀ s.log s.keyspace
  faithful : s.keyspace.Faithful α
  sound : ∀ i w, s.clients i = some w → ∃ loaded targets, w.Sound s.keyspace loaded targets

variable {ks₀ : Keyspace} {s s' : Race α}

theorem inv_initial (faithful : ks₀.Faithful α) : (initial ks₀ : Race α).Inv ks₀ :=
  ⟨.nil, faithful, nofun⟩

/-- The other clients do not mind what one client does, as long as texts stay texts. -/
theorem Inv.update (h : s.Inv ks₀) {ks : Keyspace} {log : List (Revision α)}
    (serial : Serial ks₀ log ks) (faithful : ks.Faithful α)
    (texts : ∀ key, s.keyspace.HoldsText key → ks.HoldsText key) (i : Nat) {w? : Option (Work α)}
    (sound : ∀ w, w? = some w → ∃ loaded targets, w.Sound ks loaded targets) :
    Inv ks₀ ⟨ks, Function.update s.clients i w?, log⟩ := by
  refine ⟨serial, faithful, fun j w works => ?_⟩
  by_cases same : j = i
  · subst same
    exact sound w ((Function.update_self j _ _).symm.trans works)
  · obtain ⟨loaded, targets, there⟩ :=
      h.sound j w ((Function.update_of_ne same _ _).symm.trans works)
    exact ⟨loaded, targets, there.later texts⟩

variable {w : Work α} {r : Request} {answer : r.Answer} {ks : Keyspace}
  {rest : StoreCall (Option Commit)}

/-- An answer that commits nothing only concerns the client that it is for. -/
theorem Inv.quiet (h : s.Inv ks₀) (i : Nat) (nothing : w.committed rest = [])
    (sound : ∀ w', w.after r answer rest = some w' →
      ∃ loaded targets, w'.Sound s.keyspace loaded targets) :
    (s.advance i w r answer s.keyspace rest).Inv ks₀ := by
  rw [advance, nothing, List.append_nil]
  exact h.update h.serial h.faithful (fun _ => id) i sound

/-- One answer keeps the invariant. -/
theorem Inv.turn (h : s.Inv ks₀) (keeps : KeepsIds α) (i : Nat)
    (turn : Turn s.keyspace w r answer rest ks) : (s.advance i w r answer ks rest).Inv ks₀ := by
  cases turn with
  | goesOn rest loaded targets sound =>
    obtain ⟨request, next, rfl⟩ := sound.stage.waits
    refine h.quiet i rfl fun w' same => ?_
    obtain rfl := Option.some.inj same
    exact ⟨loaded, targets, sound⟩
  | stops key reads result nothing =>
    cases result with
    | error e =>
      refine h.quiet i rfl fun w' same => ?_
      obtain ⟨-, again⟩ := Option.ite_none_right_eq_some.1 same
      obtain rfl := Option.some.inj again
      exact ⟨[], w.revision.targets, .start _ _⟩
    | ok commit =>
      cases commit with
      | none => exact h.quiet i rfl nofun
      | some commit => exact absurd rfl (nothing commit)
  | aborts changed =>
    refine h.quiet i rfl fun w' same => ?_
    obtain rfl := Option.some.inj same
    exact ⟨[], w.revision.targets, .start _ _⟩
  | commits commit loaded finds read =>
    exact h.update (h.serial.snoc w.revision loaded finds) (h.faithful.operations keeps _ _)
      (fun key => w.revision.holdsText_operations loaded) i nofun

theorem Inv.step (h : s.Inv ks₀) (keeps : KeepsIds α) (step : Step s s') : s'.Inv ks₀ := by
  cases step with
  | start i r idle =>
    refine h.update h.serial h.faithful (fun _ => id) i fun w same => ?_
    obtain rfl := Option.some.inj same
    exact ⟨[], r.targets, .start r _⟩
  | advance i w works r next waits answer ks answered =>
    obtain ⟨loaded, targets, sound⟩ := h.sound i w works
    exact h.turn keeps i (sound.turn h.faithful waits answered)

theorem Inv.of_reachable (faithful : ks₀.Faithful α) (keeps : KeepsIds α)
    (reach : Reachable ks₀ s) : s.Inv ks₀ := by
  induction reach with
  | initial => exact inv_initial faithful
  | step _ step ih => exact ih.step keeps step

end Race

/-! ## The committed revisions alone -/

/-- The store after revisions that are made alone, one after the other. -/
def replay (ks : Keyspace) (log : List (Revision α)) : Keyspace :=
  log.foldl (fun ks r => (r.alone ks).2) ks

theorem replay_concat (ks : Keyspace) (log : List (Revision α)) (r : Revision α) :
    replay ks (log ++ [r]) = (r.alone (replay ks log)).2 := by
  rw [replay, List.foldl_concat]
  rfl

namespace Serial

variable {ks₀ ks : Keyspace} {log : List (Revision α)}

theorem replay_eq (h : Serial ks₀ log ks) : replay ks₀ log = ks := by
  induction h with
  | nil => rfl
  | snoc earlier r loaded finds ih =>
    obtain ⟨commit, alone⟩ := finds.alone_eq
    rw [replay_concat, ih, alone]

/-- Each of the revisions commits. -/
theorem alone_commits (h : Serial ks₀ log ks) {earlier : List (Revision α)} {r : Revision α}
    (at' : earlier ++ [r] <+: log) :
    ∃ commit, (r.alone (replay ks₀ earlier)).1 = .ok (some commit) := by
  induction h with
  | nil => exact absurd (List.prefix_nil.1 at') (by simp)
  | snoc before r' loaded finds ih =>
    rcases List.prefix_concat_iff.1 at' with last | at'
    · obtain ⟨rfl, same⟩ := List.append_inj' last rfl
      obtain rfl := List.singleton_inj.1 same
      obtain ⟨commit, alone⟩ := finds.alone_eq
      exact ⟨commit, by rw [before.replay_eq, alone]⟩
    · exact ih at'

end Serial

/-! ## Counters -/

/-- A number that records carry and that their texts keep. -/
structure Counter (α : Type) [Record α] where
  /-- The number. -/
  value : α → Nat
  /-- A text shows the number of the record that it was written for. -/
  kept : ∀ {a json} {e : Entry α}, Record.encode a = some json →
    Entry.deserialize json.print = .ok e → value e.record = value a

/-- The number that is stored. -/
def Counter.stored {α : Type} [Record α] (counter : Counter α) (ks : Keyspace) (id : String) :
    Option Nat :=
  (ks.record? α id).map counter.value

namespace Revision

/-- Whether the revision reads and writes a key. -/
def touches (r : Revision α) (key : Key) : Bool :=
  r.targets.any fun target => target.key α = key

/-- If the revision touches the entry, it increments its counter. -/
structure Increments (r : Revision α) {t : ι} (counter : Counter (α t)) (id : String) : Prop where
  own : ∀ target ∈ r.targets, target.key α = .entry (α t) id → target = ⟨t, id⟩
  increments : ∀ loaded (e : Entry (α t)), e.id = id →
    counter.value (r.revise loaded ⟨t, e⟩) = counter.value e.record + 1

variable {r : Revision α} {ks : Keyspace} {loaded : List (Loaded α)}

theorem Finds.touches_iff (h : r.Finds ks loaded) (key : Key) :
    r.touches key = true ↔ ∃ l ∈ loaded, l.key = key := by
  rw [touches, ← h.targets, List.any_map, List.any_eq_true]
  simp only [Function.comp_apply, decide_eq_true_eq]
  rfl

variable {t : ι} {counter : Counter (α t)} {id : String}

/-- A revision alone increments the counters of the entries that it touches. -/
theorem Finds.stored_operations (h : r.Finds ks loaded) (keeps : KeepsIds α)
    (increments : r.Increments counter id) :
    counter.stored (Operation.allEffects ks (r.operations loaded)) id =
      (counter.stored ks id).map (· + if r.touches (.entry (α t) id) then 1 else 0) := by
  rcases r.getElem?_operations loaded ks (.entry (α t) id) with
    ⟨none, same⟩ | ⟨l, hl, own, json, encoded, there⟩
  · have untouched : r.touches (.entry (α t) id) = false := by
      rw [← Bool.not_eq_true, h.touches_iff]
      rintro ⟨l, hl, own⟩
      exact none l hl own
    rw [Counter.stored, Keyspace.record?_congr same, untouched]
    exact Option.map_id'.symm
  · have touched := (h.touches_iff _).2 ⟨l, hl, own⟩
    have mem : l.target ∈ r.targets := h.targets ▸ List.mem_map_of_mem hl
    have same := increments.own l.target mem own
    have genuine := h.genuine l hl
    have current := h.current l hl
    obtain ⟨t', e⟩ := l
    injection same with type same
    subst type
    obtain ⟨e', read, -⟩ := keeps _ _ _ encoded _ rfl
    have before : ks.record? (α t') id = some e.record :=
      Keyspace.record?_of_text (own ▸ current) genuine
    have after := Keyspace.record?_of_text there read
    have counted : counter.value e'.record = counter.value e.record + 1 :=
      (counter.kept encoded read).trans (increments.increments loaded e same)
    rw [Counter.stored, Counter.stored, before, after, touched, Option.map_some, counted]
    rfl

end Revision

/-- No increment is lost. -/
theorem Serial.stored_eq {ks₀ ks : Keyspace} {log : List (Revision α)} (h : Serial ks₀ log ks)
    (keeps : KeepsIds α) {t : ι} {counter : Counter (α t)} {id : String}
    (increments : ∀ r ∈ log, r.Increments counter id) :
    counter.stored ks id =
      (counter.stored ks₀ id).map (· + log.countP (Revision.touches · (.entry (α t) id))) := by
  induction h with
  | nil => simp
  | snoc earlier r loaded finds ih =>
    obtain ⟨before, last⟩ := List.forall_mem_append.1 increments
    rw [finds.stored_operations keeps (last r List.mem_cons_self), ih before, Option.map_map,
      List.countP_append, List.countP_singleton]
    congr 1
    funext n
    exact Nat.add_assoc ..

/-! ## Serializability -/

namespace Turn

variable {ks ks' : Keyspace} {w : Work α} {r : Request} {answer : r.Answer}

theorem found {commit : Commit} (h : Turn ks w r answer (.done (.ok (some commit))) ks') :
    w.Found ks := by
  generalize form : Procedure.done (Except.ok (some commit)) = rest at h
  cases h with
  | goesOn rest loaded targets sound => exact absurd form.symm (sound.stage.ne_done _)
  | stops key reads result nothing =>
    injection form with form
    exact absurd form.symm (nothing commit)
  | aborts changed => exact absurd form nofun
  | commits commit loaded finds read =>
    constructor
    · rw [read, ← finds.targets, List.map_map, List.map_map]
      rfl
    · intro key text mem
      rw [read] at mem
      obtain ⟨l, hl, same⟩ := List.mem_map.1 mem
      cases same
      exact finds.current l hl

theorem aborted {e : StoreError} (h : Turn ks w r answer (.done (.error e)) ks')
    (noRead : ∀ key, r ≠ .readString key) :
    ks' = ks ∧ e = .rejected .aborted ∧ ¬ w.Found ks := by
  generalize form : Procedure.done (Except.error e) = rest at h
  cases h with
  | goesOn rest loaded targets sound => exact absurd form.symm (sound.stage.ne_done _)
  | stops key reads result nothing => exact absurd reads (noRead key)
  | aborts changed =>
    cases form
    exact ⟨rfl, rfl, changed⟩
  | commits => exact absurd form nofun

end Turn

namespace Race

variable {ks₀ : Keyspace} {s : Race α}

/-- A race is as good as its committed revisions alone, one after the other. -/
structure Serializable (ks₀ : Keyspace) (s : Race α) : Prop where
  /-- The store is what the committed revisions make of the first store. -/
  replayed : s.keyspace = replay ks₀ s.log
  /-- Each of them commits alone, too. -/
  alone : ∀ earlier r, earlier ++ [r] <+: s.log →
    ∃ commit, (r.alone (replay ks₀ earlier)).1 = .ok (some commit)
  /-- An attempt that an answer commits finds the texts that it has read. -/
  found : ∀ i w r next answer ks commit, s.clients i = some w → w.rest = .ask r next →
    Answered s.keyspace r answer ks → next answer = .done (.ok (some commit)) →
    w.Found s.keyspace
  /-- A commit that fails is aborted and changes nothing.  It fails only if some text that
  was read has changed. -/
  aborted : ∀ i w r next answer ks e, s.clients i = some w → w.rest = .ask r next →
    Answered s.keyspace r answer ks → next answer = .done (.error e) →
    (∀ key, r ≠ .readString key) →
    ks = s.keyspace ∧ e = .rejected .aborted ∧ ¬ w.Found s.keyspace
  /-- No increment of a counter is lost. -/
  counted : ∀ t (counter : Counter (α t)) id, (∀ r ∈ s.log, r.Increments counter id) →
    counter.stored s.keyspace id = (counter.stored ks₀ id).map
      (· + s.log.countP (Revision.touches · (.entry (α t) id)))

/-- Revisions by any number of clients are serializable. -/
theorem serializable (faithful : ks₀.Faithful α) (keeps : KeepsIds α) (reach : Reachable ks₀ s) :
    s.Serializable ks₀ := by
  have inv := Inv.of_reachable faithful keeps reach
  constructor
  case replayed => exact inv.serial.replay_eq.symm
  case alone => exact fun _ _ => inv.serial.alone_commits
  case found =>
    intro i w r next answer ks commit works waits answered committed
    obtain ⟨loaded, targets, sound⟩ := inv.sound i w works
    exact (committed ▸ sound.turn inv.faithful waits answered).found
  case aborted =>
    intro i w r next answer ks e works waits answered failed
    obtain ⟨loaded, targets, sound⟩ := inv.sound i w works
    exact (failed ▸ sound.turn inv.faithful waits answered).aborted
  case counted => exact fun _ _ _ => inv.serial.stored_eq keeps

/-! Two clients push a letter to the same text.  Both read it before the first commit, so
one of them is aborted and starts over. -/

/-- The clients of a race. -/
def crowd : Crowd (Race α) where
  keyspace := Race.keyspace
  waiting s i :=
    match s.clients i with
    | some ⟨revision, read, .ask r next⟩ =>
      let w : Work α := ⟨revision, read, .ask r next⟩
      some ⟨r, fun answer ks => s.advance i w r answer ks (next answer)⟩
    | _ => none

theorem Reachable.turns (reach : Reachable ks₀ s) (schedule : List Nat) :
    Reachable ks₀ (crowd.turns s schedule) := by
  refine crowd.turns_induction (fun reach waits answered => ?_) reach schedule
  dsimp only [crowd] at waits
  split at waits
  next works =>
    cases waits
    exact reach.step (.advance _ _ works _ _ rfl _ _ answered)
  next => contradiction

end Race

/-- Pushes a letter to the party of a member. -/
def Member.lengthen (id : String) : Revision fun _ : Unit => Member where
  targets := [⟨(), id⟩]
  revise _ l := ⟨l.entry.id, l.entry.record.party.push 'I'⟩
  id_revise _ _ := rfl
  encode_revise _ _ := ⟨_, rfl⟩

theorem Member.deserialize_toJson (m : Member) :
    Entry.deserialize m.toJson.print = .ok ⟨m, some m.toJson.print⟩ :=
  Entry.deserialize_print m.ofJson?_toJson

theorem Member.keepsIds : KeepsIds fun _ : Unit => Member := by
  intro _ m json encoded _ _
  obtain rfl : m.toJson = json := Option.some.inj encoded
  exact ⟨_, m.deserialize_toJson, rfl⟩

/-- The letters of the party. -/
def Member.letters : Counter Member where
  value m := m.party.length
  kept {m _ _} encoded read := by
    cases encoded
    cases m.deserialize_toJson.symm.trans read
    rfl

namespace Race

/-- A store of one member, whose party has no letters. -/
def soleMember : Keyspace :=
  (∅ : Keyspace).insert (.entry Member "ann") (.string (Member.toJson ⟨"ann", ""⟩).print)

theorem faithful_soleMember : soleMember.Faithful fun _ : Unit => Member := by
  intro _ id text stored
  rw [soleMember, Keyspace.getElem?_insert] at stored
  split at stored
  next same =>
    obtain ⟨-, rfl⟩ := (Key.compose_inj Record.kind_plain Record.kind_plain).1 same
    injection stored with stored
    injection stored with stored
    exact ⟨_, stored ▸ Member.deserialize_toJson _, rfl⟩
  next => exact absurd stored (by simp)

/-- Two clients that are about to push a letter. -/
def twoClients : Race fun _ : Unit => Member :=
  ((initial soleMember).start 0 (Member.lengthen "ann")).start 1 (Member.lengthen "ann")

theorem reachable_twoClients : Reachable soleMember twoClients :=
  (Reachable.initial.step (.start 0 _ rfl)).step (.start 1 _ rfl)

/-- Both have read, one has committed, and the other is aborted and starts over. -/
theorem both_letters_stay :
    let s := crowd.turns twoClients [0, 1, 0, 0, 1, 1, 1, 1, 1]
    soleMember.Faithful (fun _ : Unit => Member) ∧ KeepsIds (fun _ : Unit => Member) ∧
      Reachable soleMember s ∧ s.Serializable soleMember ∧ s.log.length = 2 ∧
      Member.letters.stored s.keyspace "ann" = some 2 := by
  have reach := reachable_twoClients.turns [0, 1, 0, 0, 1, 1, 1, 1, 1]
  exact ⟨faithful_soleMember, Member.keepsIds, reach,
    serializable faithful_soleMember Member.keepsIds reach, by decide +kernel, by decide +kernel⟩

end Race

end Matchmaking
