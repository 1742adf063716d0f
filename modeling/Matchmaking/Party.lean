import Matchmaking.Entry
import Matchmaking.GatewayError
import Matchmaking.Json.Fields

/-!
# Parties and their members

A party is a group of players that queues together.  It maps the id of every
player in it, the leader included, to the player's identity token.  When the
leader leaves, the member with the lowest id takes over.  A party that everybody
left keeps the leader it had, also when players join it again.

A `Member` record maps a player back to the party.
-/

namespace Matchmaking

/-! ## Parties -/

/-- Where a party is on its way into a game. -/
inductive Phase where
  /-- Players join and leave. -/
  | forming
  /-- The party waits for a match. -/
  | matchmaking
  /-- The party has a deployment. -/
  | inGame
  /-- The phase is not known. -/
  | unknown
deriving DecidableEq

namespace Phase

/-- The stored name of a phase. -/
def name : Phase → String
  | forming => "Forming"
  | matchmaking => "Matchmaking"
  | inGame => "InGame"
  | unknown => "Unknown"

/-- The phase of a stored name. -/
def ofName? (name : String) : Option Phase :=
  [forming, matchmaking, inGame, unknown].find? fun p => p.name == name

end Phase

/-- A group of players. -/
structure Party where
  /-- The id of the party. -/
  id : String
  /-- The player who leads it. -/
  leader : String
  /-- The identity token of the leader. -/
  leaderToken : String
  /-- The members a party needs to queue. -/
  minMembers : UInt32
  /-- The members a party has room for. -/
  maxMembers : UInt32
  /-- The identity token of each member. -/
  members : TextMap
  /-- The current phase. -/
  phase : Phase
deriving DecidableEq

namespace Party

/-- A forming party of its leader alone. -/
def create (id leader token : String) (min max : UInt32) : Except GatewayError Party :=
  if 0 < min ∧ min ≤ max then
    .ok ⟨id, leader, token, min, max, (∅ : TextMap).insert leader token, .forming⟩
  else
    .error (.invalidArgument
      ("invalid party size bounds " ++ toString min.toNat ++ "..=" ++ toString max.toNat))

/-- The number of members. -/
def size (p : Party) : Nat := p.members.size

/-- Whether there are enough members to queue. -/
def isSufficient (p : Party) : Bool := p.minMembers.toNat ≤ p.size

/-- Whether there is no room for another member. -/
def isFull (p : Party) : Bool := p.maxMembers.toNat ≤ p.size

/-- Whether a player is a member. -/
def hasMember (p : Party) (player : String) : Bool := p.members.contains player

/-- The party with one more member, unless it is full or has the player. -/
def add? (p : Party) (player token : String) : Option Party :=
  if p.isFull || p.hasMember player then none
  else some { p with members := p.members.insert player token }

/-- The party without a member, if it has the player. -/
def remove? (p : Party) (player : String) : Option Party :=
  if p.hasMember player then
    let rest := p.members.erase player
    if p.leader = player then
      match rest.toList.head? with
      | some (next, token) => some { p with members := rest, leader := next, leaderToken := token }
      | none => some { p with members := rest }
    else some { p with members := rest }
  else none

/-- The party led by another member, if it has the player. -/
def handOver? (p : Party) (player : String) : Option Party :=
  p.members[player]?.map fun token => { p with leader := player, leaderToken := token }

/-- The members' ids in order. -/
def players (p : Party) : List String := p.members.keys

/-! ### The stored form -/

/-- The names of the stored fields in order. -/
def fieldNames : List String :=
  ["id", "leader_player_id", "leader_pit", "min_members", "max_members", "member_id_to_pit",
    "current_phase"]

/-- A party as a JSON value. -/
def toJson (p : Party) : Json :=
  .record [("id", .text p.id), ("leader_player_id", .text p.leader),
    ("leader_pit", .text p.leaderToken), ("min_members", .nat p.minMembers.toNat),
    ("max_members", .nat p.maxMembers.toNat), ("member_id_to_pit", .ofTextMap p.members),
    ("current_phase", .text p.phase.name)]

/-- The party that a JSON value describes. -/
def ofJson? (json : Json) : Option Party := do
  match ← json.fields? fieldNames with
  | [some id, some leader, some token, some min, some max, some members, some phase] =>
    pure {
      id := ← id.text?
      leader := ← leader.text?
      leaderToken := ← token.text?
      minMembers := UInt32.ofNat (← min.natBelow? UInt32.size)
      maxMembers := UInt32.ofNat (← max.natBelow? UInt32.size)
      members := ← members.textMap?
      phase := ← phase.tag?.bind Phase.ofName? }
  | _ => none

end Party

instance : Record Party where
  kind := "party"
  kind_plain := by decide
  id := Party.id
  encode p := some p.toJson
  decode := Party.ofJson?

/-! ## Members -/

/-- The party of a player. -/
structure Member where
  /-- The id of the player. -/
  id : String
  /-- The id of the player's party. -/
  party : String
deriving DecidableEq

namespace Member

/-- A member as a JSON value. -/
def toJson (m : Member) : Json := .record [("id", .text m.id), ("party_id", .text m.party)]

/-- The member that a JSON value describes. -/
def ofJson? (json : Json) : Option Member := do
  match ← json.fields? ["id", "party_id"] with
  | [some id, some party] => pure ⟨← id.text?, ← party.text?⟩
  | _ => none

end Member

instance : Record Member where
  kind := "member"
  kind_plain := by decide
  id := Member.id
  encode m := some m.toJson
  decode := Member.ofJson?

/-- The record of a member of the party. -/
def Party.member? (p : Party) (player : String) : Option Member :=
  if p.hasMember player then some ⟨player, p.id⟩ else none

end Matchmaking
