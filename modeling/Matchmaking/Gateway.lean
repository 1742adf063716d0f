import Matchmaking.JoinRequest
import Matchmaking.Parties

/-!
# Matchmaking

1. The leader of a party joins.  The party moves to matchmaking, its request goes
   into the queue of the matchmaking type, and each player gets a request.
2. A matcher pops the parties that have waited longest.  The requests of their
   players become matching.
3. The matcher assigns each party: to a deployment, back to the queue, or to an
   error.
4. A player asks how far the match has come.  A request that is over is deleted
   when it is handed out.

Every step that writes does so in one transaction.
-/

namespace Matchmaking

namespace Gateway

/-! ## Joining -/

/-- The party that a player may queue. -/
def mayQueue (party : Party) (player : String) : Except GatewayError Unit :=
  if party.leader ≠ player then
    .error (.permissionDenied "only the leader can start matchmaking")
  else if party.isSufficient then .ok ()
  else .error (.failedPrecondition
    "there are not enough members in the party to start matchmaking")

/-- Queues the party that a player leads, at the score of the moment. -/
def join (player matchmakingType : String) (metadata : TextMap) (now : Score) :
    Call (Entry PartyRequest) := do
  let some stored ← Parties.ofPlayer player | throw Parties.notInParty
  .done (mayQueue stored.record player)
  let party := stored.modify fun p => { p with phase := .matchmaking }
  let players : List (Entry PlayerRequest) :=
    (PlayerRequest.ofParty party.record matchmakingType metadata).map Entry.fresh
  let request : Entry PartyRequest :=
    .fresh (.ofParty party.record matchmakingType metadata now)
  let _ ← Call.commit "join" .alreadyQueued (Client.transact
    [.update [party.draft], .create [request.draft], .create (players.map Entry.draft),
      .enqueue [request.queuePlace]])
  pure request

/-! ## Popping -/

/-- How often the requests of popped players are updated before giving up. -/
def matchingAttempts : Nat := 3

/-- Whether reloading the requests may help. -/
def isStale (e : StoreError) : Bool := e.hasKind .aborted || e.hasKind .notFound

/-- The requests of the players of some parties. -/
def playerRequests : List (Entry PartyRequest) → Call (List (Entry PlayerRequest))
  | [] => pure []
  | request :: requests => do
    let players ← Call.getStored PlayerRequest request.record.party.players
    let others ← playerRequests requests
    pure (players ++ others)

/-- Loads the requests of all players and sets them to matching. -/
def tryMatching (requests : List (Entry PartyRequest)) : Call (Except StoreError Commit) := do
  let players ← playerRequests requests
  let updates := players.map fun e => (e.modify (·.withState .matching)).draft
  (Client.transact [.update updates]).attempt

/-- What the last attempt to set requests to matching leads to. -/
def endMatching : Except StoreError Commit → Call Unit
  | .ok _ => pure ()
  | .error e => throw (.ofCommit "pop_waiting_parties" .alreadyExists e)

/-- Sets the requests of all players to matching, starting over a number of times
if they have changed in between. -/
def setMatching (requests : List (Entry PartyRequest)) : Nat → Call Unit
  | 0 => do endMatching (← tryMatching requests)
  | retries + 1 => do
    match ← tryMatching requests with
    | .ok _ => pure ()
    | .error e => if isStale e then setMatching requests retries else endMatching (.error e)

/-- Loads the requests of popped parties and sets their players to matching. -/
def takeOver (popped : List ScoredMember) : Call (List (Entry PartyRequest)) := do
  let requests ← Call.getStored PartyRequest (popped.map (·.member))
  setMatching requests (matchingAttempts - 1)
  pure requests

/-- Puts popped members back into their queue.  A failure changes nothing. -/
def putBack (queue : String) (popped : List ScoredMember) : Call Unit := do
  let _ ← (Client.transact [.enqueueMembers queue popped]).attempt

/-- Takes the parties that have waited longest out of a queue.  If their players
cannot be set to matching, the parties go back into the queue. -/
def pop (queue : String) (count : Nat) : Call (List (Entry PartyRequest)) := do
  if count = 0 then
    throw (.invalidArgument "must request at least one party")
  let tx ← Call.read Client.begin
  let (ticket, tx) := tx.dequeue queue count
  let commit ← Call.commit "pop_waiting_parties" .alreadyExists (Client.commit tx)
  let popped := commit.dequeued ticket
  try takeOver popped
  catch e => do
    putBack queue popped
    throw e

/-! ## Assigning -/

/-- What a matcher decided for a party. -/
inductive Decision where
  /-- The party plays in a deployment. -/
  | matched (deploymentId deploymentName : String)
  /-- The party waits again. -/
  | requeued
  /-- There is no match for the party. -/
  | error
deriving DecidableEq

/-- A decision for a party. -/
structure Assignment where
  /-- The id of the party. -/
  party : String
  /-- The decision. -/
  decision : Decision
deriving DecidableEq

/-- The operations that carry out a decision. -/
def Decision.operations (d : Decision) (request : Entry PartyRequest) (party : Entry Party)
    (players : List (Entry PlayerRequest)) : List Operation :=
  let updatePlayers (f : PlayerRequest → PlayerRequest) : Operation :=
    .update (players.map fun e => (e.modify f).draft)
  let updateParty (phase : Phase) : Operation :=
    .update [(party.modify fun p => { p with phase := phase }).draft]
  match d with
  | matched id name =>
    [updatePlayers (·.assign id name), updateParty .inGame, .delete [request.draft]]
  | requeued => [updatePlayers (·.withState .requested), .enqueue [request.queuePlace]]
  | error => [updatePlayers (·.withState .error), updateParty .forming, .delete [request.draft]]

/-- Carries out one decision. -/
def assignOne (a : Assignment) : Call Unit := do
  let request ← Call.getOr PartyRequest a.party
    (.notFound ("join request for party " ++ a.party))
  let party ← Call.getOr Party a.party (Parties.noParty a.party)
  let players ← Call.getStored PlayerRequest request.record.party.players
  let _ ← Call.commit "assign_deployments" .alreadyExists
    (Client.transact (a.decision.operations request party players))

/-- Carries out decisions in order, up to the first that fails. -/
def assign : List Assignment → Call Unit
  | [] => pure ()
  | a :: as => do
    assignOne a
    assign as

/-! ## Status -/

/-- A player's request.  One that is over is deleted. -/
def status (player : String) : Call (Entry PlayerRequest) := do
  let request ← Call.getOr PlayerRequest player
    (.notFound ("join request for player " ++ player))
  if request.record.state.isTerminal then
    let _ ← Call.commit "get_join_status" .alreadyExists
      (Client.transact [.delete [request.draft]])
  pure request

end Gateway

end Matchmaking
