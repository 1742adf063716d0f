import Matchmaking.Proofs.Batches

/-!
# Worlds as scenes

Calls are made side by side in two ways.  A world counts what clients hold and lets them
promise something, and of what a call reports it keeps the requests that are handed out.  A
scene has the store and what is left of each call, and nothing else.

The two agree.  A step of a world is a step of the scene that shows it (`Scene.Shows.step`), so
every reachable world is shown by a reachable scene (`World.Reachable.shown`), whatever the
callers promise.  So what holds in all scenes holds in all worlds.
-/

namespace Matchmaking

/-- The requests that a report hands out. -/
def Report.handed : Report → List (Entry PartyRequest)
  | popped requests => requests
  | _ => []

namespace Activity

/-- The call of a client. -/
def facade : Activity → Facade
  | create id leader token min max => .createParty id leader token min max
  | joinParty player token party => .joinParty player token party
  | leave player => .leaveParty player
  | join player matchmakingType metadata now => .join player matchmakingType metadata now
  | pop queue count => .pop queue count
  | assign assignments => .assign assignments
  | status player => .status player

/-- Of the report of a call, only the requests that it hands out are counted. -/
theorem call_eq (activity : Activity) :
    activity.call = activity.facade.call >>= fun report => pure report.handed := by
  cases activity <;> simp [call, facade, Facade.call, Report.handed]

end Activity

namespace Scene

/-- A call of a scene shows a call of a world: the same call, with as much left to do. -/
inductive ShowsCall : Option (Facade × Call Report) → Option Activity →
    Call (List (Entry PartyRequest)) → Prop where
  | idle (result : Except GatewayError (List (Entry PartyRequest))) :
    ShowsCall none none (.done result)
  | made (activity : Activity) (rest : Call Report) :
    ShowsCall (some (activity.facade, rest)) (some activity)
      (rest >>= fun report => pure report.handed)

/-- A scene shows a world: the same store and the same calls. -/
structure Shows (s : Scene) (w : World) : Prop where
  keyspace : s.keyspace = w.ledger.keyspace
  calls : ∀ i, ShowsCall (s.calls i) (w.ledger.activity? i) (w.rest i)

variable {s : Scene} {w w' : World} {i : Nat}

theorem shows_initial : initial.Shows .initial := ⟨rfl, fun _ => .idle _⟩

/-- A call that is not made in a world is not made in the scene either. -/
theorem Shows.idle (h : s.Shows w) (new : w.ledger.calls i = none) : s.calls i = none := by
  have call := h.calls i
  rw [Ledger.activity?, new] at call
  generalize s.calls i = made at call ⊢
  generalize w.rest i = rest at call
  cases call
  rfl

/-- What becomes of one call does not concern the others. -/
theorem Shows.goOn (h : s.Shows w) {activity : Activity} {ks : Keyspace} {rest : Call Report}
    (store : ks = w'.ledger.keyspace) (record : w'.ledger.activity? i = some activity)
    (left : w'.rest i = rest >>= fun report => pure report.handed)
    (others : ∀ j, j ≠ i → w'.ledger.activity? j = w.ledger.activity? j ∧ w'.rest j = w.rest j) :
    (s.goOn i activity.facade ks rest).Shows w' := by
  refine ⟨store, fun j => ?_⟩
  by_cases same : j = i
  · subst same
    rw [calls_goOn_self, record, left]
    exact .made activity rest
  · obtain ⟨record, left⟩ := others j same
    rw [calls_goOn_of_ne s same, record, left]
    exact h.calls j

theorem Shows.start (h : s.Shows w) (client : Nat) (activity : Activity) :
    (s.goOn i activity.facade s.keyspace activity.facade.call).Shows
      (w.start i client activity) := by
  refine h.goOn h.keyspace ?_ ?_ fun j other => ⟨?_, Function.update_of_ne other _ _⟩
  · rw [w.activity?_start, if_pos rfl]
  · exact (Function.update_self i _ w.rest).trans activity.call_eq
  · rw [w.activity?_start, if_neg other]

theorem Shows.advance (h : s.Shows w) {activity : Activity}
    (record : w.ledger.activity? i = some activity) {r : Request} {answer : r.Answer}
    {ks : Keyspace} (answered : Answered w.ledger.keyspace r answer ks) (rest : Call Report) :
    (s.goOn i activity.facade ks rest).Shows
      (w.advance i r answer ks (rest >>= fun report => pure report.handed)) := by
  refine h.goOn (w.keyspace_advance _ answered).symm ?_ (Function.update_self i _ w.rest)
    fun j other => ⟨w.activity?_advance r answer ks _, Function.update_of_ne other _ _⟩
  rw [w.activity?_advance, record]

/-- A step of a world is a step of the scene that shows it. -/
theorem Shows.step (h : s.Shows w) {D : Discipline} (step : World.Step D w w') :
    ∃ i s', Step s i s' ∧ s'.Shows w' := by
  cases step with
  | start i client activity new starts =>
    exact ⟨i, _, .start activity.facade (h.idle new), h.start client activity⟩
  | advance i r next waits asks answer ks answered =>
    have call := h.calls i
    generalize made : s.calls i = made at call
    generalize record : w.ledger.activity? i = activity at call
    rw [waits] at call
    generalize form : Procedure.ask r next = rest at call
    cases call with
    | idle => contradiction
    | made activity rest =>
      cases rest with
      | done result => cases result <;> contradiction
      | ask r' next' =>
        cases form
        exact ⟨i, _, .advance activity.facade r next' made answer ks (h.keyspace ▸ answered),
          h.advance record answered (next' answer)⟩

end Scene

/-- Every reachable world is shown by a reachable scene. -/
theorem World.Reachable.shown {D : Discipline} {w : World} (reach : Reachable D w) :
    ∃ s, Scene.Reachable s ∧ s.Shows w := by
  induction reach with
  | initial => exact ⟨.initial, .initial, Scene.shows_initial⟩
  | step _ step ih =>
    obtain ⟨s, reach, shows⟩ := ih
    obtain ⟨i, s', step', shows'⟩ := shows.step step
    exact ⟨s', reach.step step', shows'⟩

end Matchmaking
