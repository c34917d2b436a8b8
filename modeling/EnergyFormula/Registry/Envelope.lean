import EnergyFormula.Identifier.Typed
import EnergyFormula.Time.Printer
import EnergyFormula.Time.Reader

/-!
# Envelopes

The data that accompanies a submission: the id of its transaction, the time it was written and, for
a retry, the id of the transaction that is retried.  `Envelope.check_eq_ok_iff` says that the check
passes exactly if there is no fault.
-/

namespace EnergyFormula

/-- The data that accompanies a submission, as it was given. -/
structure Envelope where
  transactionId : String
  creationTime : String
  initialTransactionId : Option String
  deriving DecidableEq

/-- What is wrong with an envelope. -/
inductive EnvelopeFault where
  | transactionId (e : MalformedIdentifier)
  | creationTime (e : MalformedTimestamp)
  | initialTransactionId (e : MalformedIdentifier)
  deriving DecidableEq

/-- The field that a fault is found in. -/
def EnvelopeFault.field : EnvelopeFault → String
  | transactionId _ => "transactionId"
  | creationTime _ => "creationDateTime"
  | initialTransactionId _ => "initialTransactionId"

instance : Reportable EnvelopeFault where
  code _ := .invalidEnvelope
  message
    | .transactionId e => Reportable.message e
    | .creationTime e => Reportable.message e
    | .initialTransactionId e => Reportable.message e

/-- The id of a transaction and the time it was written. -/
structure TransactionStamp where
  id : TransactionId
  createdAt : Instant

/-- The error of a result as a list. -/
def faultOf {ε α φ : Type} (fault : ε → φ) : Except ε α → List φ
  | .ok _ => []
  | .error e => [fault e]

namespace Envelope

/-- The envelope of a transaction. -/
def ofTransaction (id : TransactionId) (createdAt : Instant) : Envelope :=
  ⟨id.text, createdAt.text, none⟩

/-- The envelope of a retry. -/
def retryOf (e : Envelope) (initial : TransactionId) : Envelope :=
  { e with initialTransactionId := some initial.text }

/-- Every fault, in the order of the fields. -/
def faults (e : Envelope) : List EnvelopeFault :=
  faultOf .transactionId (TransactionId.parse e.transactionId) ++
    faultOf .creationTime (Instant.parse e.creationTime) ++
    match e.initialTransactionId with
    | some id => faultOf .initialTransactionId (TransactionId.parse id)
    | none => []

/-- The stamp of a well-formed envelope, or every fault of one that is not. -/
def check (e : Envelope) : Except (List EnvelopeFault) TransactionStamp :=
  match TransactionId.parse e.transactionId, Instant.parse e.creationTime, e.faults with
  | .ok id, .ok createdAt, [] => .ok ⟨id, createdAt⟩
  | _, _, faults => .error faults

/-- An envelope that passes the check has no faults, and its stamp is what its fields denote. -/
theorem check_eq_ok_iff {e : Envelope} {stamp : TransactionStamp} :
    e.check = .ok stamp ↔
      e.faults = [] ∧ TransactionId.parse e.transactionId = .ok stamp.id ∧
        Instant.parse e.creationTime = .ok stamp.createdAt := by
  obtain ⟨id, createdAt⟩ := stamp
  unfold check
  split
  · rename_i id' createdAt' h₁ h₂ h₃
    simp [h₁, h₂, h₃]
  · rename_i h
    constructor
    · intro hc; cases hc
    · rintro ⟨h₃, h₁, h₂⟩
      exact absurd h₃ (h _ _ h₁ h₂)

end Envelope

end EnergyFormula
