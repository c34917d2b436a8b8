import EnergyFormula.Registry.Envelope
import EnergyFormula.Table
import EnergyFormula.Validation.Location

/-!
# The registry of formulas

The registry files accepted locations under their ids, each location with the history of its
submissions in the order in which they were accepted.  Nothing is ever changed or taken away: later
submissions of a location take precedence over earlier ones at the instants that they cover.  The
receipts of accepted submissions are kept by the text of their transaction ids, so a submission that
is repeated gets the first answer again (`submit_of_cached`).  A submission has three steps: a look
at the receipts, the validation, which does not depend on the registry (`assess`), and storing
(`commit`), before which the receipts are looked at once more.
-/

namespace EnergyFormula

/-- The answer to a submission. -/
structure Receipt where
  transactionId : String
  status : SubmissionStatus
  acceptanceTime : Option Instant
  report : SubmissionReport
  /-- The answer was given before, to an earlier submission. -/
  replayed : Bool
  deriving DecidableEq

/-- An accepted submission. -/
structure StoredFormula where
  location : FormulaLocation
  transactionId : TransactionId
  createdAt : Instant
  acceptedAt : Instant

/-- The latest accepted submission of a location in short. -/
structure FormulaSummary where
  locationId : String
  /-- The name of the field that holds ids of the location's kind. -/
  locationType : String
  sliceCount : Nat
  transactionId : String
  acceptedAt : Instant
  deriving DecidableEq

/-- The summary of a location whose latest submission is given. -/
def FormulaSummary.of (id : LocationId) (latest : StoredFormula) : FormulaSummary :=
  ⟨id.text, id.fieldName, latest.location.timeSlices.length, latest.transactionId.text,
    latest.acceptedAt⟩

/-- The accepted submissions of each location, oldest first, and the receipts by the text of the
transaction id that they were given under. -/
structure Registry where
  histories : Table LocationId (List StoredFormula)
  receipts : Table String Receipt

/-- What the validation of a submission comes to. -/
inductive Assessment where
  | rejected (receipt : Receipt)
  | accepted (stamp : TransactionStamp) (location : FormulaLocation) (report : SubmissionReport)

/-- The receipt of a rejected submission. -/
def Receipt.rejected (e : Envelope) (report : SubmissionReport) : Receipt :=
  ⟨e.transactionId, .rejected, none, report, false⟩

/-- The report on an envelope with faults. -/
def envelopeReport (d : LocationDocument) (faults : List EnvelopeFault) : SubmissionReport :=
  ⟨.rejected, d.givenId, faults.map fun f => Reportable.infoAt f f.field, []⟩

/-- The validation of a submission: the envelope first, and only with a well-formed envelope the
location. -/
def Envelope.assess (e : Envelope) (d : LocationDocument) (maxDepth : Nat) : Assessment :=
  match e.check with
  | .error faults => .rejected (.rejected e (envelopeReport d faults))
  | .ok stamp =>
    let validated := d.validate maxDepth
    match validated.location with
    | none => .rejected (.rejected e validated.report)
    | some location => .accepted stamp location validated.report

namespace Registry

/-- The registry without a submission. -/
def empty : Registry :=
  ⟨.empty, .empty⟩

/-- The receipt of the transaction that is retried, or else of the transaction itself. -/
def cached? (r : Registry) (e : Envelope) : Option Receipt :=
  (e.initialTransactionId >>= fun id => r.receipts.find? id) <|>
    r.receipts.find? e.transactionId

/-- The accepted submissions of a location, oldest first. -/
def history (r : Registry) (id : LocationId) : List StoredFormula :=
  (r.histories.find? id).getD []

/-- The receipt for an accepted submission. -/
def acceptance (e : Envelope) (report : SubmissionReport) (now : Instant) : Receipt :=
  ⟨e.transactionId, .accepted, some now, report, false⟩

/-- Adds an accepted submission to the history of its location and keeps its receipt. -/
def store (r : Registry) (s : StoredFormula) (transactionId : String) (receipt : Receipt) :
    Registry :=
  ⟨r.histories.insert s.location.location (r.history s.location.location ++ [s]),
    r.receipts.insert transactionId receipt⟩

/-- Stores an accepted submission, unless its transaction has been stored meanwhile. -/
def commit (r : Registry) (e : Envelope) (now : Instant) : Assessment → Registry × Receipt
  | .rejected receipt => (r, receipt)
  | .accepted stamp location report =>
    match r.cached? e with
    | some receipt => (r, { receipt with replayed := true })
    | none =>
      let receipt := acceptance e report now
      (r.store ⟨location, stamp.id, stamp.createdAt, now⟩ e.transactionId receipt, receipt)

/-- Submits a location; `now` is the time of acceptance. -/
def submit (r : Registry) (maxDepth : Nat) (now : Instant) (e : Envelope)
    (d : LocationDocument) : Registry × Receipt :=
  match r.cached? e with
  | some receipt => (r, { receipt with replayed := true })
  | none => r.commit e now (e.assess d maxDepth)

/-- The latest accepted submission of a location. -/
def latest? (r : Registry) (id : LocationId) : Option StoredFormula :=
  (r.history id).getLast?

/-- The slice that is valid at an instant, of the newest submission that has one. -/
def resolve? (r : Registry) (id : LocationId) (t : Instant) : Option TimeSlice :=
  (r.history id).reverse.findSome? fun s => s.location.sliceAt? t

/-- The latest submission of every location, in the order of their ids. -/
def summaries (r : Registry) : List FormulaSummary :=
  let latest := r.histories.entries.filterMap fun (id, history) =>
    history.getLast?.map (FormulaSummary.of id)
  latest.mergeSort fun a b => a.locationId ≤ b.locationId

/-- A submission whose transaction has a receipt gets this receipt again and stores nothing. -/
theorem submit_of_cached {r : Registry} {e : Envelope} {receipt : Receipt}
    (h : r.cached? e = some receipt) (maxDepth : Nat) (now : Instant) (d : LocationDocument) :
    r.submit maxDepth now e d = (r, { receipt with replayed := true }) := by
  simp [submit, h]

/-- A submission is added at the end of the history of its location. -/
theorem history_store (r : Registry) (s : StoredFormula) (transactionId : String)
    (receipt : Receipt) (id : LocationId) :
    (r.store s transactionId receipt).history id =
      if id = s.location.location then r.history id ++ [s] else r.history id := by
  unfold history store
  rw [Table.find?_insert]
  split
  · rename_i h
    rw [h]
    rfl
  · rfl

end Registry

end EnergyFormula
