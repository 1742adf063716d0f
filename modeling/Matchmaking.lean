import Matchmaking.Config
import Matchmaking.Proofs.Commit
import Matchmaking.Gateway
import Matchmaking.Proofs.Lookups
import Matchmaking.Proofs.Whereabouts
import Matchmaking.Proofs.StrictExecution
import Matchmaking.Proofs.QueueHistory
import Matchmaking.Proofs.Returning
import Matchmaking.Proofs.Serializability
import Matchmaking.Proofs.Representation
import Matchmaking.Proofs.StoredForm
import Matchmaking.Proofs.Traffic
import Matchmaking.Proofs.ContestedPops
import Matchmaking.Utf8
import Matchmaking.Proofs.CanonicalOrder
import Matchmaking.Proofs.Rankings
import Matchmaking.Proofs.TypeCheck
import Matchmaking.Proofs.Dequeues
import Matchmaking.Proofs.RepeatedDequeues
import Matchmaking.Proofs.Effects
import Matchmaking.Proofs.Joining
import Matchmaking.Proofs.Assignments
import Matchmaking.Proofs.Commuting
import Matchmaking.Proofs.Origins
import Matchmaking.Proofs.FirstCome
import Matchmaking.Proofs.Tickets
import Matchmaking.Proofs.Presence
import Matchmaking.Proofs.Deliveries
import Matchmaking.Proofs.Locality
import Matchmaking.Proofs.Leadership
import Matchmaking.Proofs.Diagnosis
import Matchmaking.Proofs.Misfits
import Matchmaking.Proofs.FiniteScores
import Matchmaking.Proofs.Rereading
