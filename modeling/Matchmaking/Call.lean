import Matchmaking.Client
import Matchmaking.GatewayError

/-!
# Matchmaking calls

A matchmaking call is a procedure that ends with a result or a gateway error.
Its reads pass store errors on.  Its commits give rejections the meaning that
they have for the call.
-/

namespace Matchmaking

/-- A procedure that can fail with a gateway error. -/
abbrev Call := Procedure GatewayError

namespace Call

variable {α : Type}

/-- A read. -/
def read (c : StoreCall α) : Call α := c.mapError .store

/-- A commit on behalf of an operation. -/
def commit (operation : String) (onExists : String → GatewayError) (c : StoreCall α) : Call α :=
  c.mapError (.ofCommit operation onExists)

/-- The entry of an id, or an error if there is none. -/
def getOr (α : Type) [Record α] (id : String) (missing : GatewayError) : Call (Entry α) := do
  match ← read (Client.get α id) with
  | some entry => pure entry
  | none => throw missing

/-- The entries of those ids that are stored, in the order of the ids. -/
def getStored (α : Type) [Record α] : List String → Call (List (Entry α))
  | [] => pure []
  | id :: ids => do
    let found ← read (Client.get α id)
    let others ← getStored α ids
    pure (found.toList ++ others)

end Call

end Matchmaking
