import Mathlib.Logic.Function.Basic
import Matchmaking.Metadata
import Matchmaking.Proofs.Safety
import Matchmaking.Proofs.StrictExecution

/-!
# Deployments as maps

To its callers the metadata of deployments is a map of maps: every deployment has
finitely many fields with texts, and one that has none and one that was never
written to are the same (`Deployments`).  What a call means is said on these maps
alone (`Task.meaning`).

A store shows such maps (`Keyspace.Shows`) if the key of a deployment holds a hash
of exactly its fields, and is absent if there are none.  A call either is refused
right away, or reads one hash, or commits one transaction (`Plan`), so the last
answer that it gets decides.  At that moment it does to the store what it means for
the maps that the store shows (`Task.turn`), whatever happened since it started.
-/

namespace Matchmaking

/-- A key of a namespace and an id determines the id. -/
theorem Metadata.key_inj {x y : String} : key x = key y ↔ x = y := Key.compose_right_inj

theorem Answered.readFields_inv {ks after : Keyspace} {key : Key}
    {answer : (Request.readFields key).Answer} (h : Answered ks (.readFields key) answer after) :
    after = ks ∧ answer = ks.fields key := by
  cases h with
  | serve c store calm => exact ⟨store, congrArg (Keyspace.fields · key) store⟩

/-! ## Maps of maps -/

/-- A map with the texts of another one put over its own.  An empty text removes the field. -/
def TextMap.revise (m updates : TextMap) : TextMap :=
  m.filter (fun field _ => field ∉ updates) ∪ updates.filter fun _ text => text ≠ ""

theorem TextMap.getElem?_revise (m updates : TextMap) (field : String) :
    (m.revise updates)[field]? =
      match updates[field]? with
      | some text => if text = "" then none else some text
      | none => m[field]? := by
  have named : field ∈ updates ↔ updates[field]?.isSome = true :=
    Std.ExtTreeMap.mem_iff_isSome_getElem?
  rw [revise, Std.ExtTreeMap.getElem?_union, Std.ExtTreeMap.getElem?_filter',
    Std.ExtTreeMap.getElem?_filter']
  cases update : updates[field]? with
  | none => cases m[field]? <;> simp [named, update]
  | some text => cases m[field]? <;> simp [named, update, Option.filter]

/-- The fields of every deployment. -/
abbrev Deployments := String → TextMap

namespace Metadata

/-- A call with its arguments. -/
inductive Task where
  | set (deployment : String) (fields : TextMap)
  | update (deployment : String) (fields : TextMap)
  | setField (deployment field value : String) (precondition : Precondition)
  | deleteField (deployment field : String)
  | get (deployment : String)
  | getField (deployment field : String)
  | delete (deployment : String)

/-- What a call gives. -/
inductive Answer where
  /-- Nothing but that it is done. -/
  | done
  /-- All fields. -/
  | fields (m : TextMap)
  /-- One field. -/
  | text (s : String)
deriving DecidableEq

/-- Why a precondition keeps a field from being written. -/
def Precondition.objection (m : TextMap) (hash : Key) (field : String) :
    Precondition → Option GatewayError
  | always => none
  | equals value =>
    if m[field]? = some value then none
    else some (.failedPrecondition (hash.fieldLabel field ++ " == " ++ value))
  | absent => if field ∈ m then some (.alreadyExists (hash.fieldLabel field)) else none

/-- What a call means: its result, and the maps afterwards. -/
def Task.meaning (D : Deployments) : Task → Except GatewayError Answer × Deployments
  | set d fields =>
    if fields = ∅ then (.error (.invalidArgument "metadata must not be empty"), D)
    else if D d = ∅ then (.ok .done, Function.update D d fields)
    else (.error (.alreadyExists (key d).text), D)
  | update d fields => (.ok .done, Function.update D d ((D d).revise fields))
  | setField d field value precondition =>
    if value = "" then
      (.error (.invalidArgument ("value for " ++ field ++ " must not be empty")), D)
    else match precondition.objection (D d) (key d) field with
      | some e => (.error e, D)
      | none => (.ok .done, Function.update D d ((D d).insert field value))
  | deleteField d field =>
    if D d = ∅ then (.error (.notFound (key d).text), D)
    else if field ∈ D d then (.ok .done, Function.update D d ((D d).erase field))
    else (.error (.notFound ((key d).fieldLabel field)), D)
  | get d =>
    if D d = ∅ then (.error (.notFound ("metadata for deployment " ++ d)), D)
    else (.ok (.fields (D d)), D)
  | getField d field =>
    if D d = ∅ then (.error (.notFound ("metadata for deployment " ++ d)), D)
    else match (D d)[field]? with
      | some text => (.ok (.text text), D)
      | none => (.error (.notFound ((key d).fieldLabel field)), D)
  | delete d =>
    if D d = ∅ then (.error (.notFound (key d).text), D)
    else (.ok .done, Function.update D d ∅)

/-- What a call does. -/
def Task.call : Task → Call Answer
  | set d fields => do Metadata.set d fields; pure .done
  | update d fields => do Metadata.update d fields; pure .done
  | setField d field value precondition => do
    Metadata.setField d field value precondition; pure .done
  | deleteField d field => do Metadata.deleteField d field; pure .done
  | get d => return .fields (← Metadata.get d)
  | getField d field => return .text (← Metadata.getField d field)
  | delete d => do Metadata.delete d; pure .done

/-! ## Plans -/

/-- The shapes of calls. -/
inductive Plan where
  /-- The call fails without a request. -/
  | refuse (e : GatewayError)
  /-- The call commits a transaction. -/
  | commit (name : String) (operations : List Operation)
  /-- The call reads all fields of a deployment. -/
  | read (deployment : String) (result : TextMap → Except GatewayError Answer)

/-- What a call of a shape does. -/
def Plan.call : Plan → Call Answer
  | refuse e => throw e
  | commit name operations => do Metadata.commit name operations; pure .done
  | read d result => do
    let fields ← Call.read (Client.getFields (key d))
    .done (result fields)

/-- The shape of a call. -/
def Task.plan : Task → Plan
  | set d fields =>
    if fields.isEmpty then .refuse (.invalidArgument "metadata must not be empty")
    else .commit "set_metadata" [.createHash (key d) fields.toList]
  | update d fields => .commit "update_metadata" [.updateHash (key d) fields.toList]
  | setField d field value precondition =>
    if value.isEmpty then .refuse (.invalidArgument ("value for " ++ field ++ " must not be empty"))
    else .commit "set_metadata_entry"
      (precondition.operations (key d) field ++ [.updateHash (key d) [(field, value)]])
  | deleteField d field => .commit "delete_metadata_entry" [.deleteField (key d) field]
  | get d => .read d fun fields =>
    if fields.isEmpty then .error (.notFound ("metadata for deployment " ++ d))
    else .ok (.fields fields)
  | getField d field => .read d fun fields =>
    if fields.isEmpty then .error (.notFound ("metadata for deployment " ++ d))
    else match fields[field]? with
      | some text => .ok (.text text)
      | none => .error (.notFound ((key d).fieldLabel field))
  | delete d => .commit "delete_metadata" [.deleteKey (key d)]

/-- A call is of its shape. -/
theorem Task.call_eq (t : Task) : t.call = t.plan.call := by
  cases t with
  | set d fields =>
    rw [call, plan, Metadata.set]
    split <;> rfl
  | update d fields => rfl
  | setField d field value precondition =>
    rw [call, plan, Metadata.setField]
    split <;> rfl
  | deleteField d field => rfl
  | get d =>
    refine congrArg (Procedure.ask (.readFields (key d))) (funext fun answer => ?_)
    cases answer with
    | error e => rfl
    | ok fields =>
      simp only [Procedure.mapError, Except.mapError, Procedure.bind]
      split <;> rfl
  | getField d field =>
    refine congrArg (Procedure.ask (.readFields (key d))) (funext fun answer => ?_)
    cases answer with
    | error e => rfl
    | ok fields =>
      simp only [Procedure.mapError, Except.mapError, Procedure.bind]
      split
      · rfl
      · simp only [pure, Procedure.bind]
        cases fields[field]? <;> rfl
  | delete d => rfl

end Metadata

/-! ## Field by field -/

namespace TextMap

/-- A map with one text put under its field.  An empty text removes the field. -/
def put (m : TextMap) (field : String × String) : TextMap :=
  if field.2 = "" then m.erase field.1 else m.insert field.1 field.2

@[simp] theorem getElem?_put (m : TextMap) (field : String × String) (a : String) :
    (m.put field)[a]? =
      if field.1 = a then (if field.2 = "" then none else some field.2) else m[a]? := by
  unfold put
  split <;> simp

/-- Fields that are not named stay. -/
theorem getElem?_foldl_put_of_ne {fields : List (String × String)} {a : String}
    (unnamed : ∀ f ∈ fields, f.1 ≠ a) (m : TextMap) : (fields.foldl put m)[a]? = m[a]? := by
  induction fields generalizing m with
  | nil => rfl
  | cons f fields ih =>
    obtain ⟨here, there⟩ := List.forall_mem_cons.1 unnamed
    simp [ih there, here]

/-- A field that is named once holds its text. -/
theorem getElem?_foldl_put_of_mem {fields : List (String × String)} {a text : String}
    (once : fields.Pairwise fun f g => f.1 ≠ g.1) (mem : (a, text) ∈ fields) (m : TextMap) :
    (fields.foldl put m)[a]? = if text = "" then none else some text := by
  induction fields generalizing m with
  | nil => exact absurd mem List.not_mem_nil
  | cons f fields ih =>
    obtain ⟨new, once⟩ := List.pairwise_cons.1 once
    rw [List.foldl_cons]
    rcases List.mem_cons.1 mem with rfl | mem
    · simp [getElem?_foldl_put_of_ne fun g hg => (new g hg).symm]
    · exact ih once mem _

/-- The fields of a map one after the other revise what they are put over. -/
theorem foldl_put (m updates : TextMap) : updates.toList.foldl put m = m.revise updates := by
  refine Std.ExtTreeMap.ext_getElem? fun a => ?_
  rw [getElem?_revise]
  cases update : updates[a]? with
  | some text =>
    have once : updates.toList.Pairwise fun f g => f.1 ≠ g.1 :=
      Std.ExtTreeMap.distinct_keys_toList.imp fun differ same =>
        differ (Std.LawfulEqOrd.compare_eq_iff_eq.2 same)
    exact getElem?_foldl_put_of_mem once (Std.ExtTreeMap.mem_toList_iff_getElem?_eq_some.2 update) m
  | none =>
    refine getElem?_foldl_put_of_ne (fun f hf same => ?_) m
    have there := Std.ExtTreeMap.mem_toList_iff_getElem?_eq_some.1 hf
    rw [same, update] at there
    contradiction

end TextMap

/-! ## What a store shows -/

namespace Keyspace

/-- The key of every deployment holds a hash of exactly its fields, or is absent if it has
none. -/
def Shows (ks : Keyspace) (D : Deployments) : Prop :=
  ∀ d, ks[Metadata.key d]? = if D d = ∅ then none else some (.hash (D d))

/-- The fields that the keys of deployments show. -/
def deployments (ks : Keyspace) : Deployments := fun d => (ks.hashAt? (Metadata.key d)).getD ∅

/-- If the keys of deployments hold hashes only, and no empty ones, they show what they hold. -/
theorem shows_deployments {ks : Keyspace} (tidy : ks.Tidy)
    (typed : ∀ d v, ks[Metadata.key d]? = some v → v.type = .hash) : ks.Shows ks.deployments := by
  intro d
  rw [deployments, hashAt?]
  cases stored : ks[Metadata.key d]? with
  | none => rfl
  | some v =>
    have hash := typed d v stored
    have filled := tidy _ v stored
    cases v with
    | hash fields => exact (if_neg (Std.ExtTreeMap.isEmpty_eq_false_iff.1 filled)).symm
    | _ => contradiction

namespace Shows

variable {ks : Keyspace} {D : Deployments} (h : ks.Shows D)

include h

theorem hashAt? (d : String) : ks.hashAt? (Metadata.key d) = some (D d) := by
  rw [Keyspace.hashAt?, h d]
  by_cases empty : D d = ∅
  · rw [if_pos empty, empty]
  · rw [if_neg empty]

theorem deployments_eq : ks.deployments = D := by
  funext d
  rw [deployments, h.hashAt? d, Option.getD_some]

theorem absent_iff (d : String) : ks[Metadata.key d]? = none ↔ D d = ∅ := by
  rw [h d]
  split
  next empty => exact iff_of_true rfl empty
  next filled => exact iff_of_false (Option.some_ne_none _) filled

theorem fields (d : String) : ks.fields (Metadata.key d) = .ok (D d) := by
  rw [Keyspace.fields, h d]
  by_cases empty : D d = ∅
  · rw [if_pos empty, empty]
  · rw [if_neg empty]

theorem types (d : String) (type : ValueType) (typed : ks.types (Metadata.key d) = some type) :
    type = .hash := by
  rw [Keyspace.types, h d] at typed
  split at typed
  · contradiction
  · exact (Option.some.inj typed).symm

/-- A change of one key changes one map. -/
theorem change {ks' : Keyspace} {d : String} {m : TextMap}
    (here : ks'[Metadata.key d]? = if m = ∅ then none else some (.hash m))
    (others : ∀ x, Metadata.key d ≠ Metadata.key x → ks'[Metadata.key x]? = ks[Metadata.key x]?) :
    ks'.Shows (Function.update D d m) := by
  intro x
  by_cases same : x = d
  · subst same
    rw [Function.update_self, here]
  · rw [Function.update_of_ne same, others x fun keys => same (Metadata.key_inj.1 keys).symm, h x]

theorem erase (d : String) : Shows (ks.erase (Metadata.key d)) (Function.update D d ∅) := by
  refine h.change ?_ fun x other => ?_
  · simp
  · simp [other]

theorem editHash (d : String) (f : TextMap → TextMap) :
    (ks.editHash (Metadata.key d) f).Shows (Function.update D d (f (D d))) := by
  refine h.change ?_ fun x other => getElem?_editHash_of_ne other
  rw [Keyspace.editHash, h.hashAt? d]
  dsimp only
  rw [getElem?_put, if_pos rfl]
  by_cases empty : f (D d) = ∅
  · rw [if_pos empty, if_pos]
    exact Std.ExtTreeMap.isEmpty_iff.2 empty
  · rw [if_neg empty, if_neg]
    exact fun none => empty (Std.ExtTreeMap.isEmpty_iff.1 none)

theorem editHashes {β : Type} (d : String) (f : TextMap → β → TextMap) (xs : List β) :
    (xs.foldl (fun ks x => ks.editHash (Metadata.key d) (f · x)) ks).Shows
      (Function.update D d (xs.foldl f (D d))) := by
  induction xs generalizing ks D with
  | nil => rwa [List.foldl_nil, List.foldl_nil, Function.update_eq_self]
  | cons x xs ih =>
    have rest := ih (h.editHash d (f · x))
    rwa [Function.update_self, Function.update_idem] at rest

end Shows

/-- Commands on one hash pass the type check where the key holds no other type. -/
theorem firstMismatch_hash {ts : Types} {hash : Key} {commands : List Command}
    (typed : ∀ type, ts hash = some type → type = .hash)
    (own : ∀ c ∈ commands, c.key = hash ∧ requiredType c = some .hash) :
    firstMismatch ts commands = none := by
  induction commands generalizing ts with
  | nil => rfl
  | cons c commands ih =>
    obtain ⟨⟨here, required⟩, rest⟩ := List.forall_mem_cons.1 own
    have fits : mismatch? (ts hash) c = none := by
      unfold mismatch?
      rw [required]
      cases found : ts hash with
      | none => rfl
      | some type => exact if_pos (typed type found)
    rw [firstMismatch, here, fits]
    refine ih (fun type after => ?_) rest
    rw [Types.set, if_pos rfl] at after
    -- What needs a hash leaves the type or makes it that of a hash.
    cases c with
    | setFields key updates =>
      unfold typeAfter at after
      dsimp only at after
      split at after
      · exact typed type after
      · exact (Option.some.inj after).symm
    | deleteField key field => exact typed type after
    | _ => cases required

end Keyspace

/-! ## Commits -/

/-- Of requirements of one kind the first failing one is blamed. -/
theorem Blamed.eq_first {ks : Keyspace} {needs after : List Requirement} {r : Requirement}
    {rejection : Rejection} {kind : FailureKind} (h : Blamed ks needs rejection)
    (before : List Requirement) (split : needs = before ++ r :: after) (nameable : kind ≠ .aborted)
    (kinds : ∀ r' ∈ needs, r'.kind = kind) (holds : ∀ r' ∈ before, r'.Holds ks)
    (fails : ¬ r.Holds ks) : rejection = ⟨kind, some r.label⟩ := by
  have mem : r ∈ needs := split ▸ List.mem_append_right before List.mem_cons_self
  obtain rfl := kinds r mem
  refine h.eq_named split nameable fails (fun r' hr' _ => holds r' hr') fun r' hr' less => ?_
  rw [kinds r' hr'] at less
  exact absurd less (Nat.lt_irrefl _)

namespace Metadata

/-- What the commit of a call is on a store that shows maps: the requirements hold and the
effect is what the call means, or the blame is what the call means. -/
structure Task.Commits (t : Task) (ks : Keyspace) (D : Deployments) (name : String)
    (ops : List Operation) : Prop where
  stageable : ∀ settings, ∀ op ∈ ops, op.Stageable settings
  fits : Keyspace.firstMismatch ks.types (Operation.allCommands ops) = none
  granted : (∀ r ∈ Operation.allRequirements ops, r.Holds ks) →
    ∃ D', t.meaning D = (.ok .done, D') ∧ (Operation.allEffects ks ops).Shows D'
  turnedDown : ∀ rejection, (¬ ∀ r ∈ Operation.allRequirements ops, r.Holds ks) →
    Blamed ks (Operation.allRequirements ops) rejection →
    t.meaning D = (.error (.ofCommit name .alreadyExists (.rejected rejection)), D)

/-- The command of a field is about its hash. -/
theorem fieldCommand_own (d : String) (fields : List (String × String)) :
    ∀ c ∈ fields.map (Transaction.fieldCommand (key d)),
      c.key = key d ∧ Keyspace.requiredType c = some .hash := by
  intro c mem
  obtain ⟨field, -, rfl⟩ := List.mem_map.1 mem
  unfold Transaction.fieldCommand
  split <;> exact ⟨rfl, rfl⟩

section

variable {ks : Keyspace} {D : Deployments} (h : ks.Shows D) (d : String)

include h

theorem emptyHash_holds : (Requirement.emptyHash (key d)).Holds ks ↔ D d = ∅ := by
  change ks.hashAt? (key d) = some ∅ ↔ _
  rw [h.hashAt? d, Option.some.injEq]

theorem hasField_holds (field : String) :
    (Requirement.hasField (key d) field).Holds ks ↔ field ∈ D d := by
  change (∃ fields, ks.hashAt? (key d) = some fields ∧ field ∈ fields) ↔ _
  simp only [h.hashAt? d, Option.some.injEq, exists_eq_left']

theorem present_holds : (Requirement.present (key d)).Holds ks ↔ D d ≠ ∅ :=
  not_congr (h.absent_iff d)

theorem set_commits {fields : TextMap} (filled : fields ≠ ∅) :
    (Task.set d fields).Commits ks D "set_metadata" [.createHash (key d) fields.toList] where
  stageable settings := List.forall_mem_singleton.2 trivial
  fits := Keyspace.firstMismatch_hash (h.types d) (List.forall_mem_singleton.2 ⟨rfl, rfl⟩)
  granted holds := by
    have empty := (emptyHash_holds h d).1 (holds _ List.mem_cons_self)
    refine ⟨_, (if_neg filled).trans (if_pos empty), ?_⟩
    have listed : fields.toList ≠ [] := fun none => filled (Std.ExtTreeMap.toList_eq_nil_iff.1 none)
    have effect : Operation.allEffects ks [.createHash (key d) fields.toList] =
        ks.editHash (key d) (·.setAll fields.toList) := if_neg listed
    have shown := h.editHash d (·.setAll fields.toList)
    rwa [empty, Json.setAll_toList, ← effect] at shown
  turnedDown rejection fails blamed := by
    have empty : D d ≠ ∅ := fun empty =>
      fails (List.forall_mem_singleton.2 ((emptyHash_holds h d).2 empty))
    have blame : rejection = ⟨.alreadyExists, some (key d).text⟩ :=
      blamed.eq_first [] rfl (by decide) (List.forall_mem_singleton.2 rfl) (List.forall_mem_nil _)
        (mt (emptyHash_holds h d).1 empty)
    rw [blame]
    exact (if_neg filled).trans (if_neg empty)

theorem update_commits (fields : TextMap) :
    (Task.update d fields).Commits ks D "update_metadata"
      [.updateHash (key d) fields.toList] where
  stageable settings := List.forall_mem_singleton.2 trivial
  fits := by
    refine Keyspace.firstMismatch_hash (h.types d) ?_
    rw [Operation.allCommands, List.flatMap_singleton]
    exact fieldCommand_own d fields.toList
  granted _ := by
    refine ⟨_, rfl, ?_⟩
    rw [← TextMap.foldl_put]
    exact h.editHashes d TextMap.put fields.toList
  turnedDown rejection fails _ := absurd (List.forall_mem_nil _) fails

theorem fieldIs_holds (field value : String) :
    (Requirement.fieldIs (key d) field value).Holds ks ↔ (D d)[field]? = some value := by
  change (∃ fields, ks.hashAt? (key d) = some fields ∧ fields[field]? = some value) ↔ _
  simp only [h.hashAt? d, Option.some.injEq, exists_eq_left']

theorem lacksField_holds (field : String) :
    (Requirement.lacksField (key d) field).Holds ks ↔ field ∉ D d := by
  change (∀ fields, ks.hashAt? (key d) = some fields → field ∉ fields) ↔ _
  simp only [h.hashAt? d, Option.some.injEq, forall_eq']

/-- A precondition that holds has no objection, and one that fails is blamed with its
objection. -/
theorem precondition_objection (field : String) (precondition : Precondition) (name : String) :
    let needs := Operation.allRequirements (precondition.operations (key d) field)
    let objection := precondition.objection (D d) (key d) field
    ((∀ r ∈ needs, r.Holds ks) → objection = none) ∧
      ∀ rejection, (¬ ∀ r ∈ needs, r.Holds ks) → Blamed ks needs rejection →
        objection = some (.ofCommit name .alreadyExists (.rejected rejection)) := by
  cases precondition with
  | always => exact ⟨fun _ => rfl, fun rejection fails _ => absurd (List.forall_mem_nil _) fails⟩
  | equals value =>
    refine ⟨fun holds => ?_, fun rejection fails blamed => ?_⟩
    · exact if_pos ((fieldIs_holds h d field value).1 (holds _ List.mem_cons_self))
    · have differs : (D d)[field]? ≠ some value := fun same =>
        fails (List.forall_mem_singleton.2 ((fieldIs_holds h d field value).2 same))
      have blame : rejection =
          ⟨.failedCondition, some ((key d).fieldLabel field ++ " == " ++ value)⟩ :=
        blamed.eq_first [] rfl (by decide) (List.forall_mem_singleton.2 rfl) (List.forall_mem_nil _)
          (mt (fieldIs_holds h d field value).1 differs)
      rw [blame]
      exact if_neg differs
  | absent =>
    refine ⟨fun holds => ?_, fun rejection fails blamed => ?_⟩
    · exact if_neg ((lacksField_holds h d field).1 (holds _ List.mem_cons_self))
    · have there : field ∈ D d := by
        by_contra missing
        exact fails (List.forall_mem_singleton.2 ((lacksField_holds h d field).2 missing))
      have blame : rejection = ⟨.alreadyExists, some ((key d).fieldLabel field)⟩ :=
        blamed.eq_first [] rfl (by decide) (List.forall_mem_singleton.2 rfl) (List.forall_mem_nil _)
          fun lacks => (lacksField_holds h d field).1 lacks there
      rw [blame]
      exact if_pos there

theorem setField_commits {field value : String} (filled : value ≠ "")
    (precondition : Precondition) :
    (Task.setField d field value precondition).Commits ks D "set_metadata_entry"
      (precondition.operations (key d) field ++ [.updateHash (key d) [(field, value)]]) := by
  -- A precondition only adds requirements.
  have needs : Operation.allRequirements
      (precondition.operations (key d) field ++ [.updateHash (key d) [(field, value)]]) =
        Operation.allRequirements (precondition.operations (key d) field) := by
    cases precondition <;> rfl
  have commands : Operation.allCommands
      (precondition.operations (key d) field ++ [.updateHash (key d) [(field, value)]]) =
        [(field, value)].map (Transaction.fieldCommand (key d)) := by
    cases precondition <;> rfl
  have effects : Operation.allEffects ks
      (precondition.operations (key d) field ++ [.updateHash (key d) [(field, value)]]) =
        Operation.effect ks (.updateHash (key d) [(field, value)]) := by
    cases precondition <;> rfl
  obtain ⟨granted, turnedDown⟩ :=
    precondition_objection h d field precondition "set_metadata_entry"
  refine ⟨fun settings => ?_, ?_, fun holds => ?_, fun rejection fails blamed => ?_⟩
  · cases precondition with
    | always => exact List.forall_mem_singleton.2 trivial
    | _ => exact List.forall_mem_cons.2 ⟨trivial, List.forall_mem_singleton.2 trivial⟩
  · rw [commands]
    exact Keyspace.firstMismatch_hash (h.types d) (fieldCommand_own d _)
  · rw [needs] at holds
    refine ⟨Function.update D d ((D d).insert field value), ?_, ?_⟩
    · rw [Task.meaning, if_neg filled, granted holds]
    · have put : (D d).put (field, value) = (D d).insert field value := if_neg filled
      rw [effects, ← put]
      exact h.editHashes d TextMap.put [(field, value)]
  · rw [needs] at fails blamed
    rw [Task.meaning, if_neg filled, turnedDown rejection fails blamed]

theorem deleteField_commits (field : String) :
    (Task.deleteField d field).Commits ks D "delete_metadata_entry"
      [.deleteField (key d) field] where
  stageable settings := List.forall_mem_singleton.2 trivial
  fits := Keyspace.firstMismatch_hash (h.types d) (List.forall_mem_singleton.2 ⟨rfl, rfl⟩)
  granted holds := by
    obtain ⟨some, holds⟩ := List.forall_mem_cons.1 holds
    have filled := (present_holds h d).1 some
    have there := (hasField_holds h d field).1 (holds _ List.mem_cons_self)
    exact ⟨_, (if_neg filled).trans (if_pos there), h.editHash d (·.erase field)⟩
  turnedDown rejection fails blamed := by
    have kinds : ∀ r ∈ Operation.allRequirements [.deleteField (key d) field],
        r.kind = .notFound :=
      List.forall_mem_cons.2 ⟨rfl, List.forall_mem_singleton.2 rfl⟩
    by_cases empty : D d = ∅
    · have blame : rejection = ⟨.notFound, some (key d).text⟩ :=
        blamed.eq_first [] rfl (by decide) kinds (List.forall_mem_nil _)
          fun some => (present_holds h d).1 some empty
      rw [blame]
      exact if_pos empty
    · have present := (present_holds h d).2 empty
      have missing : field ∉ D d := fun there =>
        fails (List.forall_mem_cons.2
          ⟨present, List.forall_mem_singleton.2 ((hasField_holds h d field).2 there)⟩)
      have blame : rejection = ⟨.notFound, some ((key d).fieldLabel field)⟩ :=
        blamed.eq_first [.present (key d)] rfl (by decide) kinds
          (List.forall_mem_singleton.2 present) (mt (hasField_holds h d field).1 missing)
      rw [blame]
      exact (if_neg empty).trans (if_neg missing)

theorem delete_commits :
    (Task.delete d).Commits ks D "delete_metadata" [.deleteKey (key d)] where
  stageable settings := List.forall_mem_singleton.2 trivial
  fits := by
    have fits : Keyspace.mismatch? (ks.types (key d)) (.delete (key d)) = none := by
      cases ks.types (key d) <;> rfl
    change Keyspace.firstMismatch _ [.delete (key d)] = none
    rw [Keyspace.firstMismatch, show (Command.delete (key d)).key = key d from rfl, fits]
    rfl
  granted holds := by
    have filled := (present_holds h d).1 (holds _ List.mem_cons_self)
    exact ⟨_, if_neg filled, h.erase d⟩
  turnedDown rejection fails blamed := by
    have empty : D d = ∅ := by
      by_contra filled
      exact fails (List.forall_mem_singleton.2 ((present_holds h d).2 filled))
    have blame : rejection = ⟨.notFound, some (key d).text⟩ :=
      blamed.eq_first [] rfl (by decide) (List.forall_mem_singleton.2 rfl) (List.forall_mem_nil _)
        fun some => (present_holds h d).1 some empty
    rw [blame]
    exact if_pos empty

end

variable {ks : Keyspace} {D : Deployments} {t : Task}

/-- A call that commits does so as it means. -/
theorem Task.commits (h : ks.Shows D) {name : String} {ops : List Operation}
    (plan : t.plan = .commit name ops) : t.Commits ks D name ops := by
  cases t with
  | set d fields =>
    rw [Task.plan] at plan
    split at plan
    · contradiction
    next filled =>
      cases plan
      exact set_commits h d (mt Std.ExtTreeMap.isEmpty_iff.2 filled)
  | update d fields =>
    cases plan
    exact update_commits h d fields
  | setField d field value precondition =>
    rw [Task.plan] at plan
    split at plan
    · contradiction
    next filled =>
      cases plan
      exact setField_commits h d (mt String.isEmpty_iff.2 filled) precondition
  | deleteField d field =>
    cases plan
    exact deleteField_commits h d field
  | delete d =>
    cases plan
    exact delete_commits h d
  | _ => contradiction

theorem Task.meaning_refuse {e : GatewayError} (plan : t.plan = .refuse e) :
    t.meaning D = (.error e, D) := by
  cases t with
  | set d fields =>
    rw [Task.plan] at plan
    split at plan
    next empty =>
      cases plan
      exact if_pos (Std.ExtTreeMap.isEmpty_iff.1 empty)
    · contradiction
  | setField d field value precondition =>
    rw [Task.plan] at plan
    split at plan
    next empty =>
      cases plan
      exact if_pos (String.isEmpty_iff.1 empty)
    · contradiction
  | _ => contradiction

theorem Task.meaning_read {d : String} {result : TextMap → Except GatewayError Answer}
    (plan : t.plan = .read d result) : t.meaning D = (result (D d), D) := by
  cases t with
  | get d =>
    cases plan
    simp only [meaning, Std.ExtTreeMap.isEmpty_iff]
    split <;> rfl
  | getField d field =>
    cases plan
    simp only [meaning, Std.ExtTreeMap.isEmpty_iff]
    split
    · rfl
    · cases (D d)[field]? <;> rfl
  | set d fields =>
    rw [Task.plan] at plan
    split at plan <;> contradiction
  | setField d field value precondition =>
    rw [Task.plan] at plan
    split at plan <;> contradiction
  | _ => contradiction

/-! ## One answer -/

/-- A transaction of staged operations that is about to be committed. -/
def committing (name : String) (ops : List Operation) (id : Nat) (settings : Settings) :
    Call Answer := do
  discard <| Call.commit name .alreadyExists
    (Client.commit ((Transaction.empty id settings).stageAll ops))
  pure .done

/-- How far a call is. -/
inductive Task.Stage (t : Task) : Call Answer → Prop where
  /-- It has asked for nothing yet. -/
  | start : Stage t t.call
  /-- Its transaction is open. -/
  | committing (name : String) (ops : List Operation) (plan : t.plan = .commit name ops) (id : Nat)
      (settings : Settings) : Stage t (committing name ops id settings)

/-- What becomes of a call at a store that shows maps. -/
inductive Task.Turn (t : Task) (ks : Keyspace) (D : Deployments) : Call Answer → Keyspace → Prop
    where
  /-- It goes on, and the store is as it was. -/
  | goesOn {r : Request} {next : r.Answer → Call Answer} (stage : t.Stage (.ask r next)) :
      Turn t ks D (.ask r next) ks
  /-- It returns what it means, and the store shows what it means.  If it fails, the store is
  as it was. -/
  | returns {result : Except GatewayError Answer} {D' : Deployments} {ks' : Keyspace}
      (meaning : t.meaning D = (result, D')) (shows : ks'.Shows D')
      (kept : ∀ e, result = .error e → ks' = ks) : Turn t ks D (.done result) ks'

/-- A call starts. -/
theorem Task.turn_start (h : ks.Shows D) : t.Turn ks D t.call ks := by
  have stage : t.Stage t.call := .start
  rw [call_eq] at stage ⊢
  cases plan : t.plan with
  | refuse e => exact .returns (meaning_refuse plan) h fun _ _ => rfl
  | commit name ops =>
    rw [plan] at stage
    exact .goesOn stage
  | read d result =>
    rw [plan] at stage
    exact .goesOn stage

/-- A transaction is opened.  One without conditions and writes is committed at once. -/
theorem Task.turn_begin (h : ks.Shows D) {name : String} {ops : List Operation}
    (plan : t.plan = .commit name ops) (id : Nat) (settings : Settings) :
    t.Turn ks D (Metadata.committing name ops id settings) ks := by
  have stage : t.Stage (Metadata.committing name ops id settings) :=
    .committing name ops plan id settings
  have commits := commits h plan
  unfold Metadata.committing at stage ⊢
  rw [Client.commit, Transaction.submission_stageAll id (commits.stageable settings)] at stage ⊢
  by_cases nothing : Operation.allCommands ops = [] ∧ Operation.allDemands ops = []
  · rw [if_pos nothing]
    have holds : ∀ r ∈ Operation.allRequirements ops, r.Holds ks := by
      have none := Operation.allDemands_meet (commits.stageable settings)
      rw [nothing.2] at none
      rw [List.forall₂_nil_left_iff.1 none]
      exact List.forall_mem_nil _
    obtain ⟨D', meaning, shows⟩ := commits.granted holds
    rw [← Operation.editAll_allCommands, nothing.1] at shows
    exact .returns meaning shows fun _ _ => rfl
  · rw [if_neg nothing] at stage ⊢
    exact .goesOn stage

/-- A transaction is committed. -/
theorem Task.turn_commit (h : ks.Shows D) {name : String} {ops : List Operation}
    (plan : t.plan = .commit name ops) (id : Nat) (settings : Settings) {r : Request}
    {next : r.Answer → Call Answer} (waits : Metadata.committing name ops id settings = .ask r next)
    {answer : r.Answer} {ks' : Keyspace} (answered : Answered ks r answer ks') :
    t.Turn ks D (next answer) ks' := by
  obtain ⟨stageable, fits, granted, turnedDown⟩ := commits h plan
  have staged := stageable settings
  unfold Metadata.committing at waits
  rw [Client.commit, Transaction.submission_stageAll id staged] at waits
  by_cases nothing : Operation.allCommands ops = [] ∧ Operation.allDemands ops = []
  · rw [if_pos nothing] at waits
    contradiction
  rw [if_neg nothing] at waits
  cases waits
  obtain ⟨rfl, rfl⟩ := answered.execute_inv
  by_cases holds : ∀ r ∈ Operation.allRequirements ops, r.Holds ks
  · obtain ⟨D', meaning, shows⟩ := granted holds
    rw [Keyspace.execute_committed staged holds fits]
    dsimp only
    rw [Transaction.conclude_committed id staged]
    exact .returns meaning shows fun e same => by contradiction
  · obtain ⟨rejection, blamed, reported⟩ := Transaction.conclude_rejected id staged ks
    rw [Keyspace.execute_rejected staged holds]
    dsimp only
    rw [reported]
    exact .returns (turnedDown rejection holds blamed) h fun _ _ => rfl

/-- One answer to a call. -/
theorem Task.turn (h : ks.Shows D) {r : Request} {next : r.Answer → Call Answer}
    (stage : t.Stage (.ask r next)) {answer : r.Answer} {ks' : Keyspace}
    (answered : Answered ks r answer ks') : t.Turn ks D (next answer) ks' := by
  generalize form : Procedure.ask r next = rest at stage
  cases stage with
  | committing name ops plan id settings => exact turn_commit h plan id settings form.symm answered
  | start =>
    rw [call_eq] at form
    cases plan : t.plan with
    | refuse e =>
      rw [plan] at form
      contradiction
    | commit name ops =>
      rw [plan] at form
      cases form
      obtain ⟨rfl, id, settings, rfl⟩ := answered.begin_inv
      exact turn_begin h plan id settings
    | read d result =>
      rw [plan] at form
      cases form
      obtain ⟨rfl, rfl⟩ := answered.readFields_inv
      rw [h.fields d]
      exact .returns (meaning_read plan) h fun _ _ => rfl

end Metadata

end Matchmaking
