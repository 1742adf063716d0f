import Matchmaking.Proofs.Deployments

/-!
# Metadata calls by many clients

Any number of metadata calls are under way on one store, and their requests are
answered in any order (`Traffic`).  The calls that have returned, in the order in which
they did, are the same calls made one after the other on maps of maps: each gave what it
means for the maps that the calls before it left, and the store shows the maps that all
of them left (`Traffic.Refines`).  Calls that failed changed nothing.

The last answer that a call gets is the moment at which it counts, so a call under way is
described by how far it is alone (`Task.Stage`), and nothing that the others do disturbs it.
-/

namespace Matchmaking

namespace Metadata

/-- A call that has returned, with its result. -/
abbrev Returned := Task × Except GatewayError Answer

/-- A store and the calls that are under way. -/
structure Traffic where
  /-- The store. -/
  keyspace : Keyspace
  /-- The calls under way, with what is left of each. -/
  calls : Nat → Option (Task × Call Answer)
  /-- The calls that have returned, in this order. -/
  log : List Returned

/-- The maps after calls that were made one after the other. -/
def replay (D : Deployments) (log : List Returned) : Deployments :=
  log.foldl (fun D returned => (returned.1.meaning D).2) D

theorem replay_concat (D : Deployments) (log : List Returned) (returned : Returned) :
    replay D (log ++ [returned]) = (returned.1.meaning (replay D log)).2 :=
  List.foldl_concat ..

namespace Traffic

/-- A store without calls. -/
def initial (ks : Keyspace) : Traffic := ⟨ks, fun _ => none, []⟩

/-- A call goes on at a store, or has returned. -/
def goOn (s : Traffic) (i : Nat) (t : Task) (ks : Keyspace) : Call Answer → Traffic
  | .ask r next => ⟨ks, Function.update s.calls i (some (t, .ask r next)), s.log⟩
  | .done result => ⟨ks, Function.update s.calls i none, s.log ++ [(t, result)]⟩

/-- The steps of traffic. -/
inductive Step (s : Traffic) : Traffic → Prop where
  /-- A call is made. -/
  | start (i : Nat) (t : Task) (idle : s.calls i = none) : Step s (s.goOn i t s.keyspace t.call)
  /-- A request of a call is answered. -/
  | advance (i : Nat) (t : Task) (r : Request) (next : r.Answer → Call Answer)
      (waits : s.calls i = some (t, .ask r next)) (answer : r.Answer) (ks : Keyspace)
      (answered : Answered s.keyspace r answer ks) : Step s (s.goOn i t ks (next answer))

/-- The traffic that steps lead to from a store. -/
inductive Reachable (ks : Keyspace) : Traffic → Prop where
  | initial : Reachable ks (initial ks)
  | step {s s' : Traffic} (reach : Reachable ks s) (step : Step s s') : Reachable ks s'

/-! ## The invariant -/

/-- Every call gave what it means for the maps that the calls before it left. -/
def Meant (D : Deployments) (log : List Returned) : Prop :=
  ∀ earlier t result, earlier ++ [(t, result)] <+: log →
    result = (t.meaning (replay D earlier)).1

theorem Meant.concat {D : Deployments} {log : List Returned} (h : Meant D log) {t : Task}
    {result : Except GatewayError Answer} (last : result = (t.meaning (replay D log)).1) :
    Meant D (log ++ [(t, result)]) := by
  intro earlier t' result' at'
  rcases List.prefix_concat_iff.1 at' with whole | at'
  · obtain ⟨rfl, same⟩ := List.append_inj' whole rfl
    obtain ⟨rfl, rfl⟩ := Prod.mk.inj (List.singleton_inj.1 same)
    exact last
  · exact h earlier t' result' at'

/-- What is known of traffic. -/
structure Inv (D : Deployments) (s : Traffic) : Prop where
  meant : Meant D s.log
  shows : s.keyspace.Shows (replay D s.log)
  stage : ∀ i t rest, s.calls i = some (t, rest) → t.Stage rest ∧ ∃ r next, rest = .ask r next

variable {D : Deployments} {s s' : Traffic}

theorem inv_initial {ks : Keyspace} (h : ks.Shows D) : (initial ks).Inv D where
  meant earlier t result at' := absurd (List.prefix_nil.1 at') (by simp)
  shows := h
  stage _ _ _ works := nomatch works

/-- What becomes of one call does not disturb the others. -/
theorem Inv.goOn (h : s.Inv D) (i : Nat) {t : Task} {rest : Call Answer} {ks : Keyspace}
    (turn : t.Turn s.keyspace (replay D s.log) rest ks) : (s.goOn i t ks rest).Inv D := by
  have others {j : Nat} {t' : Task} {rest' : Call Answer} {w : Option (Task × Call Answer)}
      (works : Function.update s.calls i w j = some (t', rest')) (other : j ≠ i) :
      t'.Stage rest' ∧ ∃ r next, rest' = .ask r next :=
    h.stage j t' rest' ((Function.update_of_ne other _ _).symm.trans works)
  cases turn with
  | @goesOn r next stage =>
    refine ⟨h.meant, h.shows, fun j t' rest' works => ?_⟩
    by_cases same : j = i
    · subst same
      have works := (Function.update_self j _ s.calls).symm.trans works
      obtain ⟨rfl, rfl⟩ := Prod.mk.inj (Option.some.inj works)
      exact ⟨stage, r, next, rfl⟩
    · exact others works same
  | @returns result D' ks' meaning shows kept =>
    have shows' : ks.Shows (replay D (s.log ++ [(t, result)])) := by
      rw [replay_concat, meaning]
      exact shows
    refine ⟨h.meant.concat (by rw [meaning]), shows', fun j t' rest' works => ?_⟩
    by_cases same : j = i
    · subst same
      have works := (Function.update_self j _ s.calls).symm.trans works
      contradiction
    · exact others works same

theorem Inv.step (h : s.Inv D) (step : Step s s') : s'.Inv D := by
  cases step with
  | start i t idle => exact h.goOn i (Task.turn_start h.shows)
  | advance i t r next waits answer ks answered =>
    exact h.goOn i (Task.turn h.shows (h.stage i t _ waits).1 answered)

theorem Inv.of_reachable {ks : Keyspace} (shows : ks.Shows D) (reach : Reachable ks s) :
    s.Inv D := by
  induction reach with
  | initial => exact inv_initial shows
  | step _ step ih => exact ih.step step

/-! ## Calls that are left alone -/

/-- A call that nobody interferes with returns what it means: its stage is kept, from one answer
to the next. -/
theorem run_turn {t : Task} {ks : Keyspace} {rest : Call Answer} {c : Connection}
    (h : ks.Shows D) (calm : c.database.faults = [])
    (turn : t.Turn ks D rest c.database.keyspace) :
    (rest.run Connection.serve c).1 = (t.meaning D).1 ∧
      (rest.run Connection.serve c).2.database.keyspace.Shows (t.meaning D).2 := by
  have ended := Procedure.run_induction (P := fun rest ks' => t.Turn ks D rest ks')
    (fun turn answered => by
      cases turn with
      | goesOn stage => exact Task.turn h stage answered) calm turn
  generalize (rest.run Connection.serve c).1 = result at ended ⊢
  cases ended with
  | returns meaning shows kept =>
    rw [meaning]
    exact ⟨rfl, shows⟩

/-! ## Refinement -/

/-- Traffic is as good as its calls made one after the other on maps of maps. -/
structure Refines (ks₀ : Keyspace) (s : Traffic) : Prop where
  /-- The store shows what the calls that returned make of the maps at first. -/
  shown : s.keyspace.deployments = replay ks₀.deployments s.log
  /-- Each of them gave what it means for the maps at its turn. -/
  results : ∀ earlier t result, earlier ++ [(t, result)] <+: s.log →
    result = (t.meaning (replay ks₀.deployments earlier)).1
  /-- An answer with which a call fails comes with no change. -/
  failed : ∀ i t r next answer ks e, s.calls i = some (t, .ask r next) →
    Answered s.keyspace r answer ks → next answer = .done (.error e) → ks = s.keyspace
  /-- A call under way that is left alone returns what it means now. -/
  returns : ∀ i t rest c, s.calls i = some (t, rest) → c.database.keyspace = s.keyspace →
    c.database.faults = [] → let run := rest.run Connection.serve c
    run.1 = (t.meaning s.keyspace.deployments).1 ∧
      run.2.database.keyspace.deployments = (t.meaning s.keyspace.deployments).2

/-- The metadata calls of any number of clients refine maps of maps, on every store whose keys
of deployments hold hashes only.  No store holds an empty one (`Database.wellFormed_changes`). -/
theorem calls_refine_maps {ks₀ : Keyspace} (tidy : ks₀.Tidy)
    (typed : ∀ d v, ks₀[key d]? = some v → v.type = .hash) (reach : Reachable ks₀ s) :
    s.Refines ks₀ := by
  have inv := Inv.of_reachable (Keyspace.shows_deployments tidy typed) reach
  constructor
  case shown => exact inv.shows.deployments_eq
  case results => exact inv.meant
  case failed =>
    intro i t r next answer ks e works answered fails
    have turn := Task.turn inv.shows (inv.stage i t _ works).1 answered
    rw [fails] at turn
    cases turn with
    | returns meaning shows kept => exact kept e rfl
  case returns =>
    intro i t rest c works same calm run
    obtain ⟨stage, r, next, rfl⟩ := inv.stage i t rest works
    have turn : t.Turn s.keyspace (replay ks₀.deployments s.log) (.ask r next)
        c.database.keyspace := by
      rw [same]
      exact .goesOn stage
    obtain ⟨result, shows⟩ := run_turn inv.shows calm turn
    rw [inv.shows.deployments_eq]
    exact ⟨result, shows.deployments_eq⟩

/-! Two clients claim a deployment, and a third one looks who has it. -/

/-- The calls under way. -/
def crowd : Crowd Traffic where
  keyspace := Traffic.keyspace
  waiting s i :=
    match s.calls i with
    | some (t, .ask r next) => some ⟨r, fun answer ks => s.goOn i t ks (next answer)⟩
    | _ => none

theorem Reachable.turns {ks₀ : Keyspace} (reach : Reachable ks₀ s) (schedule : List Nat) :
    Reachable ks₀ (crowd.turns s schedule) := by
  refine crowd.turns_induction (fun reach waits answered => ?_) reach schedule
  dsimp only [crowd] at waits
  split at waits
  next works =>
    cases waits
    exact reach.step (.advance _ _ _ _ works _ _ answered)
  next => contradiction

/-- Two claims and a look that are about to be made. -/
def claims : Traffic :=
  (((initial ∅).goOn 0 (.setField "d" "owner" "ann" .absent) ∅
    (Task.setField "d" "owner" "ann" .absent).call).goOn 1 (.setField "d" "owner" "bob" .absent) ∅
    (Task.setField "d" "owner" "bob" .absent).call).goOn 2 (.get "d") ∅ (Task.get "d").call

theorem reachable_claims : Reachable ∅ claims :=
  ((Reachable.initial.step (.start 0 _ rfl)).step (.start 1 _ rfl)).step (.start 2 _ rfl)

/-- Both have opened their transactions, and the second one is faster. -/
theorem second_claim_wins :
    let s := crowd.turns claims [0, 1, 1, 0, 2]
    Keyspace.Tidy ∅ ∧ (∀ d v, (∅ : Keyspace)[key d]? = some v → v.type = .hash) ∧
      Reachable ∅ s ∧ s.Refines ∅ ∧ s.log.map Prod.snd =
        [.ok .done, .error (.alreadyExists "deployment:d:owner"),
          .ok (.fields ((∅ : TextMap).insert "owner" "bob"))] := by
  have typed (d : String) (v : Value) (stored : (∅ : Keyspace)[key d]? = some v) :
      v.type = .hash := by simp at stored
  have reach := reachable_claims.turns [0, 1, 1, 0, 2]
  exact ⟨Keyspace.tidy_empty, typed, reach, calls_refine_maps Keyspace.tidy_empty typed reach,
    by decide +kernel⟩

end Traffic

end Metadata

end Matchmaking
