import EnergyFormula.Proofs.Identifier.Uuid
import EnergyFormula.Proofs.Registry.Replay
import EnergyFormula.Proofs.Time.Grammar

/-!
# Malformed envelopes

An envelope is malformed if one of its ids is no UUID (`IsUuid`), or if the time at which it was
written is no timestamp (`Time.IsTimestamp`).  Its submission is rejected with one error for each
such field, before anything of the location is looked at, and leaves the registry as it was.  The
receipts are looked at earlier still, though, and the fields are not: a malformed envelope one of
whose ids is spelled like that of an accepted submission is answered with its receipt
(`Registry.refusesMalformed_run`).

* `isUuid_iff_isTransaction`, `Instant.exists_parse_iff`: the checks decide the form of the fields.
* `Envelope.map_field_faults`: the faults are those of the malformed fields, in their order.
-/

namespace EnergyFormula

open Text Time

/-! ### Times -/

/-- The text of a timestamp, with or without blanks around it. -/
def IsTimestampText (text : String) : Prop :=
  ∃ t, IsTimestamp (trim text.toList) t

theorem Instant.exists_parse_iff (text : String) :
    (∃ t, Instant.parse text = .ok t) ↔ IsTimestampText text :=
  exists_congr fun _ => Instant.parse_eq_ok_iff

instance (text : String) : Decidable (IsTimestampText text) :=
  decidable_of_iff ((Instant.parse text).toOption.isSome = true) <| by
    simp only [Option.isSome_iff_exists, toOption_eq_some_iff, Instant.exists_parse_iff]

/-! ### Fields of an envelope -/

/-- The fields that are malformed, in their order. -/
def Envelope.malformedFields (e : Envelope) : List String :=
  (if IsUuid e.transactionId then [] else ["transactionId"]) ++
    (if IsTimestampText e.creationTime then [] else ["creationDateTime"]) ++
    match e.initialTransactionId with
    | some id => if IsUuid id then [] else ["initialTransactionId"]
    | none => []

theorem map_field_faultOf {ε α : Type} {x : Except ε α} {p : Prop} [Decidable p]
    (hread : (∃ a, x = .ok a) ↔ p) (fault : ε → EnvelopeFault) {field : String}
    (hfield : ∀ e, (fault e).field = field) :
    (faultOf fault x).map EnvelopeFault.field = if p then [] else [field] := by
  cases x with
  | ok a => rw [if_pos (hread.1 ⟨a, rfl⟩), faultOf, List.map_nil]
  | error e => rw [if_neg (mt hread.2 nofun), faultOf, List.map_singleton, hfield]

namespace Envelope

variable {e : Envelope}

theorem map_field_faults (e : Envelope) :
    e.faults.map EnvelopeFault.field = e.malformedFields := by
  have hid := map_field_faultOf (TransactionId.exists_parse_iff e.transactionId)
    .transactionId fun _ => rfl
  have htime := map_field_faultOf (Instant.exists_parse_iff e.creationTime)
    .creationTime fun _ => rfl
  unfold faults malformedFields
  rw [List.map_append, List.map_append, hid, htime]
  cases e.initialTransactionId with
  | none => rfl
  | some id =>
    exact congrArg _ (map_field_faultOf (TransactionId.exists_parse_iff id) _ fun _ => rfl)

theorem faults_eq_nil_iff : e.faults = [] ↔ e.malformedFields = [] := by
  rw [← map_field_faults, List.map_eq_nil_iff]

theorem check_of_faults (h : e.faults ≠ []) : e.check = .error e.faults := by
  unfold check
  split
  · rename_i hnil
    exact absurd hnil h
  · rfl

/-- The location does not count if there are faults. -/
theorem assess_of_faults (h : e.faults ≠ []) (d : LocationDocument) (maxDepth : Nat) :
    e.assess d maxDepth = .rejected (.rejected e (envelopeReport d e.faults)) := by
  unfold assess
  rw [check_of_faults h]

end Envelope

/-- The receipt names the malformed fields of the envelope as errors, and nothing else. -/
structure Receipt.RefusesEnvelope (p : Receipt) (e : Envelope) : Prop where
  transactionId : p.transactionId = e.transactionId
  status : p.status = .rejected
  acceptanceTime : p.acceptanceTime = none
  replayed : p.replayed = false
  reportStatus : p.report.status = .rejected
  errors : p.report.locationErrors.map (fun info => (info.code, info.path)) =
    e.malformedFields.map fun field => (.invalidEnvelope, some field)
  slices : p.report.slices = []

namespace Registry

/-- How malformed envelopes are answered after the given submissions have been accepted. -/
structure RefusesMalformed (maxDepth : Nat) (r : Registry) (accepted : List Call) : Prop where
  /-- Nothing malformed has been accepted. -/
  wellFormed : ∀ c ∈ accepted, c.submission.envelope.malformedFields = []
  /-- A malformed envelope with none of their ids is refused, and nothing is stored. -/
  refused : ∀ s, s.envelope.malformedFields ≠ [] →
    (∀ c ∈ accepted, s.envelope.transactionId ≠ c.text ∧
      s.envelope.initialTransactionId ≠ some c.text) →
        (r.answer maxDepth s).1 = r ∧ (r.answer maxDepth s).2.RefusesEnvelope s.envelope
  /-- One that repeats a submission letter by letter gets its receipt, and nothing is stored. -/
  again : ∀ s c, s.envelope.Repeats Eq accepted c →
    r.answer maxDepth s = (r, { c.receipt with replayed := true })

section Answers

variable {maxDepth : Nat} {r : Registry} {calls : List Call} {s : Submission}

/-- Without a receipt the fields of a malformed envelope decide. -/
theorem answer_of_malformed (hcached : r.cached? s.envelope = none)
    (h : s.envelope.malformedFields ≠ []) :
    r.answer maxDepth s =
      (r, .rejected s.envelope (envelopeReport s.document s.envelope.faults)) :=
  answer_of_rejected hcached
    (Envelope.assess_of_faults (mt Envelope.faults_eq_nil_iff.1 h) s.document maxDepth)

theorem refusesEnvelope_rejected (e : Envelope) (d : LocationDocument) :
    (Receipt.rejected e (envelopeReport d e.faults)).RefusesEnvelope e where
  transactionId := rfl
  status := rfl
  acceptanceTime := rfl
  replayed := rfl
  reportStatus := rfl
  errors := by
    rw [← Envelope.map_field_faults]
    simp [Receipt.rejected, envelopeReport, Reportable.infoAt, Reportable.code]
  slices := rfl

theorem Grows.refusesMalformed (h : Grows maxDepth empty calls r) :
    RefusesMalformed maxDepth r (Call.accepted calls) where
  wellFormed c hc := by
    obtain ⟨entry, hentry⟩ := h.entry c hc
    obtain ⟨_, hcheck, _⟩ := Submission.stored?_eq_some_iff.1 hentry
    exact Envelope.faults_eq_nil_iff.1 (Envelope.check_eq_ok_iff.1 hcheck).1
  refused s hfields hother := by
    have hcached : r.cached? s.envelope = none := by
      refine cached?_eq_none_iff.2 ⟨fun id hid => ?_, ?_⟩
      · exact (receipt_eq_none_iff h).2 fun c hc hsame => (hother c hc).2 (hsame ▸ hid)
      · exact (receipt_eq_none_iff h).2 fun c hc => (hother c hc).1
    rw [answer_of_malformed hcached hfields]
    exact ⟨rfl, refusesEnvelope_rejected s.envelope s.document⟩
  again := h.replays.again

end Answers

/-- After every run a malformed envelope is refused for its malformed fields, unless one of its ids
is spelled letter by letter like that of an accepted submission. -/
theorem refusesMalformed_run (maxDepth : Nat) (submissions : List Submission) :
    RefusesMalformed maxDepth (run maxDepth empty submissions).1
      (Call.accepted (Registry.calls maxDepth empty submissions)) :=
  (grows_run maxDepth empty submissions).refusesMalformed

/-- The submission of a location under an envelope whose fields are all malformed. -/
def strayed : Submission :=
  ⟨⟨"not-a-uuid", "yesterday", some "unknown"⟩, .year, ⟨0, 0⟩⟩

/-- It is refused for all of them. -/
theorem refusesMalformed_run_strayed :
    let first := Submission.ofYear "0000000a-7dec-11d0-a765-00a0c91e6bf6" none
    let r := (run 32 empty [first]).1
    (empty.answer 32 first).2.isNew = true ∧
      strayed.envelope.malformedFields =
          ["transactionId", "creationDateTime", "initialTransactionId"] ∧
        (r.answer 32 strayed).1 = r ∧ (r.answer 32 strayed).2.RefusesEnvelope strayed.envelope := by
  intro first r
  have hnew : (empty.answer 32 first).2.isNew = true := by decide +kernel
  have hfields : strayed.envelope.malformedFields =
      ["transactionId", "creationDateTime", "initialTransactionId"] := by decide +kernel
  have hother : ∀ c ∈ Call.accepted (Registry.calls 32 empty [first]),
      strayed.envelope.transactionId ≠ c.text ∧
        strayed.envelope.initialTransactionId ≠ some c.text := by
    have haccepted : Call.accepted (Registry.calls 32 empty [first]) =
        [⟨first, (empty.answer 32 first).2⟩] := List.filter_cons_of_pos hnew
    rw [haccepted]
    exact List.forall_mem_singleton.2 ⟨by decide, by decide⟩
  have hne : strayed.envelope.malformedFields ≠ [] := by
    rw [hfields]
    exact List.cons_ne_nil _ _
  exact ⟨hnew, hfields, (refusesMalformed_run 32 [first]).refused strayed hne hother⟩

/-- A malformed retry of an accepted submission is not refused: it gets the receipt.  Neither is a
time with a blank in front of it and the minus sign U+2212. -/
theorem malformed_retry_replayed :
    let first := Submission.ofYear "0000000a-7dec-11d0-a765-00a0c91e6bf6" none
    let retry : Submission := { strayed with envelope :=
      ⟨"not-a-uuid", "yesterday", some "0000000a-7dec-11d0-a765-00a0c91e6bf6"⟩ }
    let answer := (run 32 empty [first]).1.answer 32 retry
    let loose : Submission := { strayed with envelope :=
      ⟨"0000000b-7dec-11d0-a765-00a0c91e6bf6", " 2024-01-01T00:00:00\u221200:00", none⟩ }
    (retry.envelope.malformedFields = ["transactionId", "creationDateTime"] ∧
      answer.2.status = .accepted ∧ answer.2.replayed = true) ∧
    (∀ t, ¬ IsTimestamp loose.envelope.creationTime.toList t) ∧
      (empty.answer 32 loose).2.status = .accepted := by
  refine ⟨⟨by decide +kernel, by decide +kernel, by decide +kernel⟩, fun t ht => ?_, by decide +kernel⟩
  have hread := ht.readTimestamp
  exact nomatch hread

end Registry

end EnergyFormula
