import Matchmaking.Party

/-!
# Join requests

A party that waits for a match has a `PartyRequest`, which stands in the queue
of its matchmaking type at the time the party joined.  Each of its players has a
`PlayerRequest`, which tells the player how the match is coming along.
-/

namespace Matchmaking

/-! ## Requests of parties -/

/-- A party's wish for a match. -/
structure PartyRequest where
  /-- The id of the party. -/
  id : String
  /-- The party as it joined. -/
  party : Party
  /-- The kind of match, which names the queue. -/
  matchmakingType : String
  /-- What the caller adds. -/
  metadata : TextMap
  /-- When the party joined, in milliseconds. -/
  score : Score
deriving DecidableEq

namespace PartyRequest

/-- The request of a party that joins at a time. -/
def ofParty (party : Party) (matchmakingType : String) (metadata : TextMap) (score : Score) :
    PartyRequest :=
  ⟨party.id, party, matchmakingType, metadata, score⟩

/-- A request as a JSON value. -/
def toJson (r : PartyRequest) : Json :=
  .record [("id", .text r.id), ("party", r.party.toJson),
    ("matchmaking_type", .text r.matchmakingType), ("metadata", .ofTextMap r.metadata),
    ("score", .ofScore r.score)]

/-- The request that a JSON value describes. -/
def ofJson? (json : Json) : Option PartyRequest := do
  match ← json.fields? ["id", "party", "matchmaking_type", "metadata", "score"] with
  | [some id, some party, some matchmakingType, some metadata, some score] =>
    pure {
      id := ← id.text?
      party := ← Party.ofJson? party
      matchmakingType := ← matchmakingType.text?
      metadata := ← metadata.textMap?
      score := ← score.score? }
  | _ => none

end PartyRequest

instance : Record PartyRequest where
  kind := "party_join_request"
  kind_plain := by decide
  id := PartyRequest.id
  encode r := some r.toJson
  decode := PartyRequest.ofJson?

instance : Queued PartyRequest where
  queue := PartyRequest.matchmakingType
  score := PartyRequest.score

/-! ## Requests of players -/

/-- How far a match has come. -/
inductive MatchState where
  /-- The party waits. -/
  | requested
  /-- A matcher has taken the party. -/
  | matching
  /-- The party has a deployment. -/
  | matched
  /-- There will be no match. -/
  | error
deriving DecidableEq

namespace MatchState

/-- The stored name of a state. -/
def name : MatchState → String
  | requested => "Requested"
  | matching => "Matching"
  | matched => "Matched"
  | error => "Error"

/-- The state of a stored name. -/
def ofName? (name : String) : Option MatchState :=
  [requested, matching, matched, error].find? fun s => s.name == name

/-- Whether nothing more will happen. -/
def isTerminal : MatchState → Bool
  | matched => true
  | error => true
  | _ => false

end MatchState

instance : Inhabited MatchState := ⟨.requested⟩

/-- A player's view of the request of the party. -/
structure PlayerRequest where
  /-- The id of the player. -/
  id : String
  /-- The identity token of the player. -/
  token : String
  /-- The kind of match. -/
  matchmakingType : String
  /-- What the caller added. -/
  metadata : TextMap
  /-- How far the match has come. -/
  state : MatchState
  /-- The id of the deployment, once there is one. -/
  deploymentId : Option String
  /-- The name of the deployment, once there is one. -/
  deploymentName : Option String
deriving DecidableEq

namespace PlayerRequest

/-- The request of a player whose party waits. -/
def create (player token matchmakingType : String) (metadata : TextMap) : PlayerRequest :=
  ⟨player, token, matchmakingType, metadata, .requested, none, none⟩

/-- The requests of all players of a party. -/
def ofParty (party : Party) (matchmakingType : String) (metadata : TextMap) :
    List PlayerRequest :=
  party.members.toList.map fun (player, token) => create player token matchmakingType metadata

/-- The request in another state. -/
def withState (r : PlayerRequest) (state : MatchState) : PlayerRequest := { r with state := state }

/-- The request with a deployment. -/
def assign (r : PlayerRequest) (deploymentId deploymentName : String) : PlayerRequest :=
  { r with
    state := .matched, deploymentId := some deploymentId, deploymentName := some deploymentName }

/-- A request as a JSON value. -/
def toJson (r : PlayerRequest) : Json :=
  .record [("id", .text r.id), ("player_identity_token", .text r.token),
    ("matchmaking_type", .text r.matchmakingType), ("metadata", .ofTextMap r.metadata),
    ("state", .text r.state.name), ("deployment_id", .ofOptionalText r.deploymentId),
    ("deployment_name", .ofOptionalText r.deploymentName)]

/-- The request that a JSON value describes. -/
def ofJson? (json : Json) : Option PlayerRequest := do
  match ← json.fields? ["id", "player_identity_token", "matchmaking_type", "metadata", "state",
      "deployment_id", "deployment_name"] with
  | [some id, some token, some matchmakingType, some metadata, some state, deploymentId,
      deploymentName] =>
    pure {
      id := ← id.text?
      token := ← token.text?
      matchmakingType := ← matchmakingType.text?
      metadata := ← metadata.textMap?
      state := ← state.tag?.bind MatchState.ofName?
      deploymentId := ← Json.optionalText? deploymentId
      deploymentName := ← Json.optionalText? deploymentName }
  | _ => none

end PlayerRequest

instance : Record PlayerRequest where
  kind := "player_join_request"
  kind_plain := by decide
  id := PlayerRequest.id
  encode r := some r.toJson
  decode := PlayerRequest.ofJson?

end Matchmaking
