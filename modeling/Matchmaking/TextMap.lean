import Std.Data.ExtTreeMap

/-!
# Maps of texts

The fields of a hash, the members of a party and the metadata of a request are
finite maps from names to texts.  A map has no history: two maps with the same
texts under the same names are equal.  It is listed in the order of its names,
by code points.
-/

namespace Matchmaking

/-- A finite map from names to texts. -/
abbrev TextMap := Std.ExtTreeMap String String

namespace TextMap

/-- The map after texts were given to names one after the other. -/
def setAll (m : TextMap) (updates : List (String × String)) : TextMap :=
  updates.foldl (fun m (name, text) => m.insert name text) m

end TextMap

end Matchmaking
