import EnergyFormula.Document.Report
import EnergyFormula.Registry.Basic

/-!
# Registry documents

The interchange form of envelopes, receipts and summaries.
-/

namespace EnergyFormula

open Document

/-- The envelope that a value holds. -/
def Envelope.read (v : Json) : Decoded Envelope :=
  let fields : Record v Envelope :=
    Envelope.mk <$> .required ["transactionId"] string
      <*> .required ["creationDateTime"] string
      <*> .optional ["initialTransactionId"] string
  fields.read

/-- The envelope as it is written. -/
def Envelope.write (e : Envelope) : Json :=
  object [("transactionId", some (.string e.transactionId)),
    ("creationDateTime", some (.string e.creationTime)),
    ("initialTransactionId", e.initialTransactionId.map .string)]

/-- The receipt that a value holds. -/
def Receipt.read (v : Json) : Decoded Receipt :=
  let fields : Record v Receipt :=
    Receipt.mk <$> .required ["transactionId"] string
      <*> .required ["status"] (named SubmissionStatus.ofText?)
      <*> .optional ["acceptanceTime"] instant
      <*> .required ["result"] SubmissionReport.read
      <*> .defaulted ["replayed"] false boolean
  fields.read

/-- The receipt as it is written. -/
def Receipt.write (r : Receipt) : Json :=
  object [("transactionId", some (.string r.transactionId)),
    ("status", some (.string r.status.text)),
    ("acceptanceTime", r.acceptanceTime.map ofInstant),
    ("result", some r.report.write), ("replayed", some (.boolean r.replayed))]

/-- The summary that a value holds. -/
def FormulaSummary.read (v : Json) : Decoded FormulaSummary :=
  let fields : Record v FormulaSummary :=
    FormulaSummary.mk <$> .required ["locationId"] string
      <*> .required ["locationType"] string
      <*> .required ["timeSliceCount"] (natural 64)
      <*> .required ["transactionId"] string
      <*> .required ["acceptedAt"] instant
  fields.read

/-- The summary as it is written. -/
def FormulaSummary.write (s : FormulaSummary) : Json :=
  .object [("locationId", .string s.locationId), ("locationType", .string s.locationType),
    ("timeSliceCount", .integer s.sliceCount), ("transactionId", .string s.transactionId),
    ("acceptedAt", ofInstant s.acceptedAt)]

end EnergyFormula
