import Matchmaking.Failure

/-!
# Errors of the matchmaking calls

A caller of matchmaking learns what it can act on: try again, wait for more
players, do something else.  What a rejected commit means depends on the call,
so every call gives its own meaning to a key that exists already.  Store errors
that are no rejections are passed on as they are.
-/

namespace Matchmaking

/-- What can go wrong in a matchmaking call. -/
inductive GatewayError where
  /-- A player, party, request or metadata is not there. -/
  | notFound (what : String)
  /-- Something is there already. -/
  | alreadyExists (what : String)
  /-- A party waits already. -/
  | alreadyQueued (key : String)
  /-- The caller may not do this. -/
  | permissionDenied (reason : String)
  /-- This cannot be done now. -/
  | failedPrecondition (reason : String)
  /-- An argument is out of range. -/
  | invalidArgument (reason : String)
  /-- Another client was faster. -/
  | unavailable (reason : String)
  /-- Too few parties wait. -/
  | resourceExhausted (reason : String)
  /-- The store failed. -/
  | store (e : StoreError)
deriving DecidableEq

namespace GatewayError

/-- The words for an error. -/
def message : GatewayError → String
  | notFound what => "not found: " ++ what
  | alreadyExists what => "already exists: " ++ what
  | alreadyQueued key => "party already queued: " ++ key
  | permissionDenied reason => "permission denied: " ++ reason
  | failedPrecondition reason => "failed precondition: " ++ reason
  | invalidArgument reason => "invalid argument: " ++ reason
  | unavailable reason => "unavailable: " ++ reason
  | resourceExhausted reason => "resource exhausted: " ++ reason
  | store e => e.message

/-- Whether the same call may succeed later. -/
def isRetryable : GatewayError → Bool
  | unavailable _ => true
  | resourceExhausted _ => true
  | _ => false

/-- What a failed commit means to the caller of an operation. -/
def ofCommit (operation : String) (onExists : String → GatewayError) (e : StoreError) :
    GatewayError :=
  let label := e.label?.getD ""
  match e.kind? with
  | some .notFound => notFound label
  | some .alreadyExists => onExists label
  | some .failedCondition => failedPrecondition label
  | some .insufficientEntries => resourceExhausted ("not enough entries in " ++ label)
  | some .aborted =>
    unavailable (operation ++ " aborted due to concurrent modification; safe to retry")
  | none => store e

end GatewayError

end Matchmaking
