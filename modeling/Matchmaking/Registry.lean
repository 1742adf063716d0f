import Matchmaking.Batch
import Matchmaking.Failure

/-!
# The conditions of a transaction

A registry keeps what each condition of a transaction is about, the label it is
reported under, and, after an attempt to commit, whether it held.

A rejected transaction reports one failure.  Concerns are gone through in the
order queue length, absence, presence, value, and within a concern the first
condition that did not hold is blamed.  A snapshot is never blamed.  If there is
nobody to blame, the transaction was aborted.
-/

namespace Matchmaking

/-- What a condition is about. -/
inductive Concern where
  /-- A queue is long enough. -/
  | queueLength
  /-- Something is absent or empty. -/
  | absence
  /-- Something is there. -/
  | presence
  /-- A field holds a value or does not hold it. -/
  | value
  /-- An entry still holds the text it was read from. -/
  | snapshot
deriving DecidableEq

namespace Concern

/-- The failure of a condition that did not hold. -/
def failure : Concern → FailureKind
  | queueLength => .insufficientEntries
  | absence => .alreadyExists
  | presence => .notFound
  | value => .failedCondition
  | snapshot => .aborted

/-- The concerns that can be blamed, first to last. -/
def precedence : List Concern := [queueLength, absence, presence, value]

end Concern

/-- An attached condition without the condition itself. -/
structure Attachment where
  /-- The label it is reported under. -/
  label : String
  /-- What it is about. -/
  concern : Concern
  /-- Whether it held; unknown until a store answers. -/
  held : Option Bool
deriving DecidableEq

/-- The conditions of one transaction in the order they were attached. -/
structure Registry where
  /-- What is known of each condition. -/
  attachments : List Attachment
  /-- The conditions that have not been taken yet. -/
  conditions : List Condition
deriving DecidableEq

namespace Registry

/-- The registry without conditions. -/
def empty : Registry := ⟨[], []⟩

/-- Attaches a condition. -/
def attach (r : Registry) (concern : Concern) (label : String) (condition : Condition) : Registry :=
  ⟨r.attachments ++ [⟨label, concern, none⟩], r.conditions ++ [condition]⟩

/-- The number of attached conditions. -/
def size (r : Registry) : Nat := r.attachments.length

/-- Whether no conditions are attached. -/
def isEmpty (r : Registry) : Bool := r.attachments.isEmpty

/-- Takes the conditions out; what is known of them stays. -/
def take (r : Registry) : List Condition × Registry := (r.conditions, ⟨r.attachments, []⟩)

/-- Fills in answers, one for each attachment from the first on.  Attachments
past the last answer keep what they had, and surplus answers are dropped. -/
def answer : List Attachment → List Bool → List Attachment
  | a :: as, held :: rest => { a with held := some held } :: answer as rest
  | as, _ => as

/-- Records whether the conditions held. -/
def recordAnswers (r : Registry) (held : List Bool) : Registry :=
  ⟨answer r.attachments held, r.conditions⟩

/-- The first attachment of a concern that did not hold. -/
def firstFailed (r : Registry) (concern : Concern) : Option Attachment :=
  r.attachments.find? fun a => a.concern = concern ∧ a.held = some false

/-- The rejection to report. -/
def diagnose (r : Registry) : Rejection :=
  match Concern.precedence.findSome? r.firstFailed with
  | some a => ⟨a.concern.failure, some a.label⟩
  | none => .aborted

end Registry

end Matchmaking
