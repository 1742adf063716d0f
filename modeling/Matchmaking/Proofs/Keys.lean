import Matchmaking.Gateway
import Matchmaking.Metadata

/-!
# Keys of different things differ

A composed key determines its namespace and its id, because a namespace holds no
separator.  So entries of different types, entries of different ids and queues
never share a key.

Reading the namespace of a key undoes composing it.  The keys with a namespace
are exactly the composed ones (`space?_eq_some_iff`), whatever separators their
ids hold.  The service composes six families of keys (`Key.Family`), each of
which has a namespace of its own.
-/

namespace Matchmaking

namespace Key

theorem upToSeparator_append {xs : List Char} (plain : separator ∉ xs) (ys : List Char) :
    upToSeparator (xs ++ separator :: ys) = some xs := by
  induction xs with
  | nil => rw [List.nil_append, upToSeparator, if_pos rfl]
  | cons x xs ih =>
    rw [List.mem_cons, not_or] at plain
    obtain ⟨other, rest⟩ := plain
    rw [List.cons_append, upToSeparator, if_neg (Ne.symm other), ih rest]
    rfl

theorem toList_compose (space id : String) :
    (compose space id).text.toList = space.toList ++ separator :: id.toList := by
  simp only [compose, String.toList_append, List.append_assoc]
  rfl

/-- A composed key names its namespace. -/
theorem space?_compose {space : String} (plain : separator ∉ space.toList) (id : String) :
    (compose space id).space? = some space := by
  rw [space?, toList_compose, upToSeparator_append plain, Option.map_some, String.ofList_toList]

/-- In one namespace, a key determines its id. -/
theorem compose_right_inj {space x y : String} : compose space x = compose space y ↔ x = y := by
  refine ⟨fun same => ?_, congrArg _⟩
  have texts := congrArg (fun k => k.text.toList) same
  rw [toList_compose, toList_compose] at texts
  exact String.toList_inj.1 (List.cons.inj (List.append_cancel_left texts)).2

theorem compose_inj {space space' id id' : String} (plain : separator ∉ space.toList)
    (plain' : separator ∉ space'.toList) :
    compose space id = compose space' id' ↔ space = space' ∧ id = id' := by
  constructor
  · intro same
    have spaces : some space = some space' := by
      rw [← space?_compose plain id, same, space?_compose plain' id']
    obtain rfl := Option.some.inj spaces
    exact ⟨rfl, compose_right_inj.1 same⟩
  · rintro ⟨rfl, rfl⟩
    rfl

/-- Namespaces of different keys. -/
abbrev Apart (space space' : String) : Prop :=
  space ≠ space' ∧ separator ∉ space.toList ∧ separator ∉ space'.toList

/-- Keys of different namespaces differ. -/
theorem compose_ne {space space' : String} (h : Apart space space') (x y : String) :
    compose space x ≠ compose space' y := by
  obtain ⟨other, plain, plain'⟩ := h
  intro same
  exact other ((compose_inj plain plain').1 same).1

@[simp] theorem entry_inj {α : Type} [Record α] {x y : String} : entry α x = entry α y ↔ x = y :=
  compose_right_inj

@[simp] theorem queue_inj {q q' : String} : queue q = queue q' ↔ q = q' := compose_right_inj

/-! ## Reading the namespace -/

/-- What stands in front of the first separator holds none, and a separator follows. -/
theorem upToSeparator_eq_some_iff {cs xs : List Char} :
    upToSeparator cs = some xs ↔ separator ∉ xs ∧ ∃ ys, cs = xs ++ separator :: ys := by
  constructor
  · intro read
    induction cs generalizing xs with
    | nil => contradiction
    | cons c cs ih =>
      rw [upToSeparator] at read
      split at read
      next here =>
        obtain rfl := Option.some.inj read
        exact ⟨List.not_mem_nil, cs, congrArg (· :: cs) here⟩
      next other =>
        obtain ⟨front, rest, rfl⟩ := Option.map_eq_some_iff.1 read
        obtain ⟨plain, ys, rfl⟩ := ih rest
        exact ⟨List.not_mem_cons_of_ne_of_not_mem (Ne.symm other) plain, ys, rfl⟩
  · rintro ⟨plain, ys, rfl⟩
    exact upToSeparator_append plain ys

/-- The keys with a namespace are the composed ones. -/
theorem space?_eq_some_iff {k : Key} {space : String} :
    k.space? = some space ↔ separator ∉ space.toList ∧ ∃ id, k = compose space id := by
  constructor
  · intro named
    obtain ⟨front, read, rfl⟩ := Option.map_eq_some_iff.1 named
    obtain ⟨plain, rest, split⟩ := upToSeparator_eq_some_iff.1 read
    refine ⟨String.toList_ofList ▸ plain, String.ofList rest, ?_⟩
    have texts : k.text.toList = (compose (String.ofList front) (String.ofList rest)).text.toList := by
      rw [toList_compose, String.toList_ofList, String.toList_ofList, split]
    exact congrArg Key.mk (String.toList_inj.1 texts)
  · rintro ⟨plain, id, rfl⟩
    exact space?_compose plain id

/-! ## Families -/

/-- What a composed key of the service is for. -/
inductive Family where
  /-- The member of a party. -/
  | member
  /-- A party. -/
  | party
  /-- The request of a party. -/
  | partyRequest
  /-- The request of a player. -/
  | playerRequest
  /-- A queue. -/
  | queue
  /-- The metadata of a deployment. -/
  | deployment
deriving DecidableEq

namespace Family

/-- The key of an id. -/
def key : Family → String → Key
  | member => entry Member
  | party => entry Party
  | partyRequest => entry PartyRequest
  | playerRequest => entry PlayerRequest
  | queue => Key.queue
  | deployment => Metadata.key

/-- The namespace of the keys. -/
def space : Family → String
  | member => Record.kind Member
  | party => Record.kind Party
  | partyRequest => Record.kind PartyRequest
  | playerRequest => Record.kind PlayerRequest
  | queue => queueNamespace
  | deployment => Metadata.deploymentNamespace

theorem key_eq (f : Family) (id : String) : f.key id = compose f.space id := by cases f <;> rfl

theorem space_plain (f : Family) : separator ∉ f.space.toList := by cases f <;> decide

theorem space_injective {f g : Family} (same : f.space = g.space) : f = g := by
  revert same
  cases f <;> cases g <;> decide

/-- A key of a family determines the family and the id. -/
theorem key_inj_iff {f g : Family} {x y : String} : f.key x = g.key y ↔ f = g ∧ x = y := by
  rw [key_eq, key_eq, compose_inj f.space_plain g.space_plain]
  exact and_congr_left fun _ => ⟨space_injective, congrArg space⟩

end Family

/-- Keys composed in namespaces without a separator are equal only if their namespaces and their
ids are.  The namespace is read off a key exactly if the key was composed in it.  So the keys of
all entries, queues and deployments differ, unless they are for the same thing. -/
theorem composed_keys_never_collide {space space' : String} (plain : separator ∉ space.toList)
    (plain' : separator ∉ space'.toList) (id id' : String) :
    (compose space id = compose space' id' ↔ space = space' ∧ id = id') ∧
    (compose space id).space? = some space ∧
    (∀ k : Key, k.space? = some space ↔ ∃ id, k = compose space id) ∧
    (∀ (f g : Family) (x y : String), f.key x = g.key y ↔ f = g ∧ x = y) ∧
    ∀ (f : Family) (x : String), (f.key x).space? = some f.space := by
  refine ⟨compose_inj plain plain', space?_compose plain id, fun k => ?_,
    fun f g x y => Family.key_inj_iff, fun f x => ?_⟩
  · rw [space?_eq_some_iff]
    exact and_iff_right plain
  · rw [Family.key_eq]
    exact space?_compose f.space_plain x

/-- One namespace starts with the other, the ids hold separators and one id is empty. -/
theorem longer_namespace_apart :
    compose "party" "_join_request:" ≠ compose "party_join_request" "" ∧
      (compose "party" ":a").space? = some "party" ∧
      Family.party.key "_join_request:" ≠ Family.partyRequest.key "" := by
  have plain : separator ∉ "party".toList := by decide
  have plain' : separator ∉ "party_join_request".toList := by decide
  obtain ⟨apart, -, -, families, -⟩ :=
    composed_keys_never_collide plain plain' "_join_request:" ""
  obtain ⟨-, named, -⟩ := composed_keys_never_collide plain plain ":a" ""
  refine ⟨fun same => ?_, named, fun same => ?_⟩
  · exact absurd (apart.1 same).1 (by decide)
  · exact absurd ((families _ _ _ _).1 same).1 (by decide)

/-- With a separator in a namespace, keys collide. -/
example : compose "a:b" "c" = compose "a" "b:c" := by decide

end Key

end Matchmaking
