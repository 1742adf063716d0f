import Matchmaking.Call

/-!
# Metadata of deployments

The metadata of a deployment is one hash.  A deployment without fields and one
without a hash are the same.  Writing a single field can depend on what the
field holds, so that of several writers one claims a deployment.
-/

namespace Matchmaking

namespace Metadata

/-- The namespace of metadata keys. -/
def deploymentNamespace : String := "deployment"

/-- The key of a deployment's metadata. -/
def key (deployment : String) : Key := .compose deploymentNamespace deployment

/-- What has to hold before a field is written. -/
inductive Precondition where
  /-- Nothing. -/
  | always
  /-- The field holds this text. -/
  | equals (value : String)
  /-- There is no such field. -/
  | absent
deriving DecidableEq

/-- The staging calls of a precondition. -/
def Precondition.operations (hash : Key) (field : String) : Precondition → List Operation
  | always => []
  | equals value => [.requireFieldEqual hash field value]
  | absent => [.requireNoField hash field]

/-- A commit of a metadata call. -/
def commit (operation : String) (operations : List Operation) : Call Unit := do
  let _ ← Call.commit operation .alreadyExists (Client.transact operations)

/-- Gives metadata to a deployment that has none. -/
def set (deployment : String) (fields : TextMap) : Call Unit := do
  if fields.isEmpty then
    throw (.invalidArgument "metadata must not be empty")
  commit "set_metadata" [.createHash (key deployment) fields.toList]

/-- Sets fields; an empty text removes its field. -/
def update (deployment : String) (fields : TextMap) : Call Unit :=
  commit "update_metadata" [.updateHash (key deployment) fields.toList]

/-- Sets one field if a precondition holds. -/
def setField (deployment field value : String) (precondition : Precondition) : Call Unit := do
  if value.isEmpty then
    throw (.invalidArgument ("value for " ++ field ++ " must not be empty"))
  let hash := key deployment
  commit "set_metadata_entry"
    (precondition.operations hash field ++ [.updateHash hash [(field, value)]])

/-- Removes a field that is there. -/
def deleteField (deployment field : String) : Call Unit :=
  commit "delete_metadata_entry" [.deleteField (key deployment) field]

/-- All fields of a deployment that has some. -/
def get (deployment : String) : Call TextMap := do
  let fields ← Call.read (Client.getFields (key deployment))
  if fields.isEmpty then
    throw (.notFound ("metadata for deployment " ++ deployment))
  pure fields

/-- One field of a deployment. -/
def getField (deployment field : String) : Call String := do
  let fields ← get deployment
  match fields[field]? with
  | some value => pure value
  | none => throw (.notFound ((key deployment).fieldLabel field))

/-- Removes the metadata of a deployment that has some. -/
def delete (deployment : String) : Call Unit :=
  commit "delete_metadata" [.deleteKey (key deployment)]

end Metadata

end Matchmaking
