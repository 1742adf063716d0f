/-!
# Keys

Every value of a store lives under a key, which is a text.  A *composed* key is
a namespace, a colon and an id.  Entries are stored at `<kind>:<id>`, queues at
`queue:<name>` and the metadata of deployments at `deployment:<id>`.  Namespaces
hold no colon, so the first colon of a composed key ends its namespace.

Keys are ordered as texts, by code points.
-/

namespace Matchmaking

/-- A store key. -/
structure Key where
  /-- The key as a text. -/
  text : String
deriving DecidableEq, Inhabited

namespace Key

instance : Ord Key := ⟨fun a b => compare a.text b.text⟩

theorem compare_eq (a b : Key) : compare a b = compare a.text b.text := rfl

instance : Std.TransOrd Key where
  eq_swap := fun {a b} => by
    simp only [compare_eq]
    exact Std.OrientedCmp.eq_swap
  isLE_trans := fun {a b c} => by
    simp only [compare_eq]
    exact Std.TransCmp.isLE_trans

instance : Std.LawfulEqOrd Key where
  eq_of_compare := fun {a b} h => by
    rw [compare_eq] at h
    have : a.text = b.text := Std.LawfulEqCmp.eq_of_compare h
    cases a
    cases b
    simpa using this

/-- The mark between a namespace and an id. -/
def separator : Char := ':'

/-- The namespace of queue keys. -/
def queueNamespace : String := "queue"

/-- The key of a namespace and an id. -/
def compose (space id : String) : Key := ⟨space ++ ":" ++ id⟩

/-- The key of a queue. -/
def queue (name : String) : Key := compose queueNamespace name

/-- The characters in front of the first separator, if there is one. -/
def upToSeparator : List Char → Option (List Char)
  | [] => none
  | c :: cs => if c = separator then some [] else (upToSeparator cs).map (c :: ·)

/-- The namespace of a key; a key without a separator has none. -/
def space? (k : Key) : Option String := (upToSeparator k.text.toList).map String.ofList

/-- The label of a field of the hash stored at the key. -/
def fieldLabel (k : Key) (field : String) : String := k.text ++ ":" ++ field

end Key

end Matchmaking
