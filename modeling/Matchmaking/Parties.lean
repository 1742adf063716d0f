import Matchmaking.Call
import Matchmaking.Party

/-!
# Forming and leaving parties

A party and the member records of its players are written in one transaction,
and a member record is only ever created where there is none.  So a player is in
at most one party.  Players come and go while the party is forming, and the last
one to leave deletes it.
-/

namespace Matchmaking

namespace Parties

/-- What a player who already has a party is told. -/
def alreadyInParty (who : String) : GatewayError :=
  .alreadyExists ("player already in a party (" ++ who ++ ")")

/-- What a player without a party is told. -/
def notInParty : GatewayError := .notFound "player is not a member of any party"

/-- What a caller is told whose party is not there. -/
def noParty (id : String) : GatewayError := .notFound ("party " ++ id)

/-- Creates a party of its leader under a fresh id. -/
def create (id leader token : String) (min max : UInt32) : Call (Entry Party) := do
  let party ← .done (Party.create id leader token min max)
  let entry := Entry.fresh party
  let member : Entry Member := .fresh ⟨leader, id⟩
  let _ ← Call.commit "create_party" alreadyInParty
    (Client.transact [.create [entry.draft], .create [member.draft]])
  pure entry

/-- The party with a player added to it. -/
def accept (party : Party) (player token : String) : Except GatewayError Party :=
  if party.phase ≠ .forming then .error (.failedPrecondition "party is not accepting members")
  else if party.hasMember player then .error (alreadyInParty player)
  else match party.add? player token with
    | some party => .ok party
    | none => .error (.failedPrecondition "party is full")

/-- Adds a player to a forming party. -/
def join (player token partyId : String) : Call (Entry Party) := do
  let stored ← Call.getOr Party partyId (noParty partyId)
  let party ← .done (accept stored.record player token)
  let entry : Entry Party := ⟨party, stored.previous⟩
  let member : Entry Member := .fresh ⟨player, partyId⟩
  let _ ← Call.commit "join_party" alreadyInParty
    (Client.transact [.update [entry.draft], .create [member.draft]])
  pure entry

/-- What becomes of a party that a player leaves. -/
def departure (stored : Entry Party) (player : String) : Operation :=
  let party := (stored.record.remove? player).getD stored.record
  let entry : Entry Party := ⟨party, stored.previous⟩
  if party.size = 0 then .delete [entry.draft] else .update [entry.draft]

/-- Takes a player out of the player's party. -/
def leave (player : String) : Call Unit := do
  let member ← Call.getOr Member player notInParty
  let partyId := member.record.party
  let stored ← Call.getOr Party partyId (noParty partyId)
  if stored.record.phase ≠ .forming then
    throw (.failedPrecondition "cannot leave a party while it is matchmaking or in game")
  let _ ← Call.commit "leave_party" .alreadyExists
    (Client.transact [.delete [member.draft], departure stored player])

/-- The party of a player, if the player has one. -/
def ofPlayer (player : String) : Call (Option (Entry Party)) := do
  match ← Call.read (Client.get Member player) with
  | some member => Call.read (Client.get Party member.record.party)
  | none => pure none

end Parties

end Matchmaking
