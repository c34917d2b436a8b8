import EnergyFormula.Document.Location
import EnergyFormula.Validation.Formula
import EnergyFormula.Validation.Submission

/-!
# Validating locations

`LocationDocument.validate` turns a location document into a location or into a report of all of its
defects.  Each slice is checked on its own (`SliceDocument.check`), and then against the others: for
an id that an earlier slice has already, and for overlaps, which are reported with both slices.
-/

namespace EnergyFormula

/-! ### Single slices -/

namespace SliceDocument

/-- The id of a slice, or its place in the document if it has none. -/
def label (d : SliceDocument) (index : Nat) : Int :=
  d.id.getD index

/-- The id of a slice. -/
def checkId (d : SliceDocument) : Checked Int :=
  match d.id with
  | some id => .valid id
  | none => .fail (.inField "timeSliceId" (.missingIdentifier "timeSliceId"))

/-- The quality of a slice. -/
def checkQuality (d : SliceDocument) : Checked SliceQuality :=
  match d.quality with
  | none => .fail (.inField "timeSliceQuality" (.missingIdentifier "timeSliceQuality"))
  | some s =>
    match SliceQuality.ofText? s with
    | some quality => .valid quality
    | none => .fail (.inField "timeSliceQuality" (.unknownQuality s))

/-- A bound of the validity of a slice. -/
def checkBound (field : String) (bound : Option String) : Checked Instant :=
  match bound with
  | none => .fail (.inField field (.missingTimestamp field))
  | some s => (Checked.ofExcept Defect.timestamp (Instant.parse s)).within [.field field]

/-- The validity of a slice: two bounds, the first one before the second one. -/
def checkValidity (d : SliceDocument) (index : Nat) : Checked Period :=
  let bounds := Period.mk <$> checkBound "periodOfUseFrom" d.validFrom
    <*> checkBound "periodOfUseTo" d.validTo
  bounds.andThen fun p =>
    if p.start < p.stop then .valid p
    else .fail (.here (.location (.slicePeriod (d.label index) p.start p.stop)))

/-- The formula of a slice. -/
def checkFormula (d : SliceDocument) (maxDepth : Nat) : Checked Formula :=
  match d.formula with
  | some f => f.validate maxDepth
  | none => .fail (.inField "calculationFormula" .missingFormula)

/-- The slice at a place of the document. -/
def check (d : SliceDocument) (maxDepth index : Nat) : Checked TimeSlice :=
  let make (id : Int) (quality : SliceQuality) (validity : Period) (formula : Formula) :
      TimeSlice :=
    ⟨id, quality, validity.start, validity.stop, formula⟩
  let slice := make <$> d.checkId <*> d.checkQuality <*> d.checkValidity index
    <*> d.checkFormula maxDepth
  slice.within [.field "timeSlice", .item index]

/-- The period between the bounds of a slice, if both are well-formed. -/
def window? (d : SliceDocument) : Option Period := do
  let start ← d.validFrom >>= fun s => (Instant.parse s).toOption
  let stop ← d.validTo >>= fun s => (Instant.parse s).toOption
  return ⟨start, stop⟩

end SliceDocument

/-! ### Slices among each other -/

/-- The place in the document of a slice. -/
def slicePath (index : Nat) : Path :=
  [.field "timeSlice", .item index]

/-- The finding of a slice whose id an earlier slice has already. -/
def duplicateFindings (slices : List SliceDocument) (index : Nat) : List Finding :=
  match slices[index]? >>= SliceDocument.id with
  | some id =>
    if (slices.take index).any fun d => d.id = some id then
      [(Finding.inField "timeSliceId" (.duplicateSlice id)).within (slicePath index)]
    else []
  | none => []

/-- The slices with two well-formed bounds: their places and periods. -/
def boundedSlices (slices : List SliceDocument) : List PlacedPeriod :=
  slices.zipIdx.filterMap fun (d, index) => d.window?.map fun p => ⟨index, p⟩

/-- The places of the pairs of slices that overlap. -/
def conflicts (slices : List SliceDocument) : List (Nat × Nat) :=
  let bounded := boundedSlices slices
  (overlappingPairs (bounded.map PlacedPeriod.period)).filterMap fun (a, b) =>
    match bounded[a]?, bounded[b]? with
    | some first, some second => some (first.place, second.place)
    | _, _ => none

/-- The id of the slice at a place, or the place if it has no id. -/
def labelAt (slices : List SliceDocument) (index : Nat) : Int :=
  (slices[index]? >>= SliceDocument.id).getD index

/-- The findings of a slice that overlaps others, one for each of them. -/
def overlapFindings (slices : List SliceDocument) (index : Nat) : List Finding :=
  (conflicts slices).filterMap fun (a, b) =>
    if a = index || b = index then
      let overlap := LocationDefect.sliceOverlap (labelAt slices a) (labelAt slices b)
      some ⟨slicePath index, .location overlap⟩
    else none

/-- Every finding of a slice. -/
def sliceFindings (slices : List SliceDocument) (maxDepth index : Nat) (d : SliceDocument) :
    List Finding :=
  (d.check maxDepth index).findings ++ duplicateFindings slices index ++
    overlapFindings slices index

/-! ### Locations -/

/-- What the validation of a location comes to: the report, and the location if it is accepted. -/
structure Validated where
  report : SubmissionReport
  location : Option FormulaLocation

namespace LocationDocument

/-- The id of the location: exactly one of the two. -/
def checkId (d : LocationDocument) : Checked LocationId :=
  match d.marketId, d.networkId with
  | some s, none =>
    (LocationId.market <$>
      Checked.ofExcept Defect.malformed (Identifier.parse .marketLocationId s)).within
        [.field "maloId"]
  | none, some s =>
    (LocationId.network <$>
      Checked.ofExcept Defect.malformed (Identifier.parse .networkLocationId s)).within
        [.field "neloId"]
  | some _, some _ => .fail (.here (.location (.union .both)))
  | none, none => .fail (.here (.location (.union .neither)))

/-- The finding of a location without slices. -/
def emptyFindings (d : LocationDocument) : List Finding :=
  if d.givenSlices.isEmpty then [.here (.location .noTimeSlices)] else []

/-- Every finding of the location itself. -/
def locationFindings (d : LocationDocument) : List Finding :=
  d.checkId.findings ++ d.emptyFindings

/-- The reports of the slices, in the order of the document. -/
def sliceReports (d : LocationDocument) (maxDepth : Nat) : List SliceReport :=
  d.givenSlices.mapIdx fun index s =>
    .of s.id ((sliceFindings d.givenSlices maxDepth index s).map Finding.info)

/-- The slices, if each of them passes its check. -/
def typedSlices? (d : LocationDocument) (maxDepth : Nat) : Option (List TimeSlice) :=
  (d.givenSlices.mapIdx fun index s => (s.check maxDepth index).value?).mapM id

/-- The location of a document without findings. -/
def build (d : LocationDocument) (maxDepth : Nat) :
    Option (Except LocationDefect FormulaLocation) := do
  let id ← d.checkId.value?
  let slices ← d.typedSlices? maxDepth
  return FormulaLocation.build id slices

/-- The validation of a location: it is accepted if there is no finding at all. -/
def validate (d : LocationDocument) (maxDepth : Nat) : Validated :=
  let slices := d.sliceReports maxDepth
  let report (status : SubmissionStatus) (findings : List Finding) : SubmissionReport :=
    ⟨status, d.givenId, findings.map Finding.info, slices⟩
  let rejected (findings : List Finding) : Validated := ⟨report .rejected findings, none⟩
  if d.locationFindings.isEmpty && slices.all SliceReport.valid then
    match d.build maxDepth with
    | some (.ok location) => ⟨report .accepted [], some location⟩
    | some (.error defect) => rejected [.here (.location defect)]
    | none => rejected []
  else rejected d.locationFindings

/-- The validation of a location hands out a location exactly if it reports acceptance. -/
theorem isSome_location_validate (d : LocationDocument) (maxDepth : Nat) :
    (d.validate maxDepth).location.isSome = (d.validate maxDepth).report.isAccepted := by
  simp only [validate]
  split
  · split <;> rfl
  · rfl

end LocationDocument

/-- The validation of a location that is given already. -/
def FormulaLocation.revalidate (l : FormulaLocation) (maxDepth : Nat) : Validated :=
  l.document.validate maxDepth

end EnergyFormula
