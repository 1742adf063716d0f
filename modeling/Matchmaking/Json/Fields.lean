import Matchmaking.Json
import Matchmaking.Score.Reading
import Matchmaking.TextMap

/-!
# Reading records from JSON

A record is read from an object or from an array.

* An object gives each field by its name.  Unknown members are skipped, but
  their names have to be Unicode text.  A field named twice is refused.
* An array gives all fields in their order, no more and no fewer.

What stands in a field is read by the type of the field.  Whole numbers have to
be plain numerals in range.  A score may be any numeral in range.  A map is read
from an object only, and the last of several values of a name stays.  One of a
list of names is read from a string or from an object that maps the name to
`null`.
-/

namespace Matchmaking

namespace Json

/-! ## Fields of a record -/

/-- Members by their names, if every name is Unicode text. -/
def namedMembers : List (Option String × Json) → Option (List (String × Json))
  | [] => some []
  | (none, _) :: _ => none
  | (some name, value) :: members => (namedMembers members).map ((name, value) :: ·)

/-- The value of a field that is named at most once. -/
def field? (members : List (String × Json)) (name : String) : Option (Option Json) :=
  match members.filter (·.1 == name) with
  | [] => some none
  | [(_, value)] => some (some value)
  | _ => none

/-- The fields of a record in the order of their names.  The outer option is
absent if the value is no such record, an inner one if the field is missing. -/
def fields? (names : List String) : Json → Option (List (Option Json))
  | .object members => do
    let members ← namedMembers members
    names.mapM (field? members)
  | .array items => if items.length = names.length then some (items.map some) else none
  | _ => none

/-! ## Values of fields -/

/-- A text. -/
def text? : Json → Option String
  | .string content => content
  | _ => none

/-- A whole number below a bound. -/
def natBelow? (bound : Nat) : Json → Option Nat
  | .number n => n.natural?.filter (· < bound)
  | _ => none

/-- A score. -/
def score? : Json → Option Score
  | .number n => Score.ofNumeral n
  | _ => none

/-- Members with text values, added to a map in order. -/
def textMembers (into : TextMap) : List (Option String × Json) → Option TextMap
  | [] => some into
  | (some name, .string (some value)) :: members => textMembers (into.insert name value) members
  | _ => none

/-- A map of texts. -/
def textMap? : Json → Option TextMap
  | .object members => textMembers ∅ members
  | _ => none

/-- A text or `null`.  A missing field counts as `null`. -/
def optionalText? : Option Json → Option (Option String)
  | none => some none
  | some .null => some none
  | some (.string (some s)) => some (some s)
  | _ => none

/-- A name, alone or mapped to `null`. -/
def tag? : Json → Option String
  | .string content => content
  | .object [(name, .null)] => name
  | _ => none

/-! ## Values to write -/

/-- A map of texts as an object. -/
def ofTextMap (m : TextMap) : Json := record (m.toList.map fun (name, value) => (name, text value))

/-- A score as its shortest numeral.  Infinities and NaN have none and become
`null`. -/
def ofScore (s : Score) : Json :=
  match s.numeral? with
  | some n => .number n
  | none => .null

/-- A text, or `null`. -/
def ofOptionalText : Option String → Json
  | some s => text s
  | none => .null

end Json

end Matchmaking
