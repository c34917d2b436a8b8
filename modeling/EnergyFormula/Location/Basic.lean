import EnergyFormula.Formula.Basic
import EnergyFormula.Location.Overlap

/-!
# Formula locations

The formula of a market or network location is given in time slices: versions of it, each valid
over a period.  A `FormulaLocation` holds slices whose periods are not empty and do not overlap, in
the order of their starts; `FormulaLocation.build` is the way to one, and reports the first of the
defects that `sliceDefects` lists.
-/

namespace EnergyFormula

/-- A market or network location. -/
inductive LocationId where
  | market (id : MarketLocationId)
  | network (id : NetworkLocationId)
  deriving DecidableEq

namespace LocationId

/-- The id as it is written. -/
def text : LocationId → String
  | market id => id.text
  | network id => id.text

/-- The text of the id, if the location is a market location. -/
def marketText? : LocationId → Option String
  | .market id => some id.text
  | .network _ => none

/-- The text of the id, if the location is a network location. -/
def networkText? : LocationId → Option String
  | .market _ => none
  | .network id => some id.text

/-- The name of the field that holds an id of this kind. -/
def fieldName : LocationId → String
  | market _ => "maloId"
  | network _ => "neloId"

/-- The location that a text denotes, told by its form. -/
def parse? (text : String) : Option LocationId :=
  match Identifier.parse .marketLocationId text with
  | .ok id => some (market id)
  | .error _ =>
    match Identifier.parse .networkLocationId text with
    | .ok id => some (network id)
    | .error _ => none

end LocationId

/-- Whether a slice comes with data. -/
inductive SliceQuality where
  | valid
  | noData
  deriving DecidableEq

namespace SliceQuality

/-- The quality as it is written. -/
def text : SliceQuality → String
  | valid => "Gültige Daten"
  | noData => "Keine Daten"

/-- The quality with a text; each has two. -/
def ofText? (s : String) : Option SliceQuality :=
  if s = "Gültige Daten" || s = "valid" then some valid
  else if s = "Keine Daten" || s = "no-data" then some noData
  else none

/-- A written quality is read back. -/
theorem ofText?_text (q : SliceQuality) : ofText? q.text = some q := by
  cases q <;> decide

end SliceQuality

/-- A version of a location's formula and the period over which it is valid. -/
structure TimeSlice where
  id : Int
  quality : SliceQuality
  /-- The first instant of the slice. -/
  validFrom : Instant
  /-- The first instant after the slice. -/
  validTo : Instant
  formula : Formula

namespace TimeSlice

/-- The period over which the slice is valid. -/
def validity (s : TimeSlice) : Period :=
  ⟨s.validFrom, s.validTo⟩

/-- The slice is valid at an instant. -/
def covers (s : TimeSlice) (t : Instant) : Bool :=
  s.validity.contains t

end TimeSlice

/-- Which of the two ids of a location a document has, if it is not exactly one. -/
inductive IdPresence where
  | both
  | neither
  deriving DecidableEq

/-- What is wrong with a location. -/
inductive LocationDefect where
  | union (presence : IdPresence)
  | noTimeSlices
  | slicePeriod (id : Int) (validFrom validTo : Instant)
  | sliceOverlap (first second : Int)
  deriving DecidableEq

namespace LocationDefect

/-- The defect in words. -/
def message : LocationDefect → String
  | union .both =>
    "Formula location must carry exactly one of maloId or neloId: both are present"
  | union .neither =>
    "Formula location must carry exactly one of maloId or neloId: neither is present"
  | noTimeSlices => "Formula location has no calculation formula time slices"
  | slicePeriod id validFrom validTo =>
    "Time slice " ++ toString id ++ ": validFrom " ++ validFrom.text ++
      " is not before validTo " ++ validTo.text
  | sliceOverlap first second =>
    "Time slices " ++ toString first ++ " and " ++ toString second ++
      " have overlapping validity periods"

/-- The code of the defect. -/
def code : LocationDefect → ErrorCode
  | union _ => .invalidLocationUnion
  | noTimeSlices => .emptyTimeSlices
  | slicePeriod _ _ _ => .invalidTimeSlicePeriod
  | sliceOverlap _ _ => .overlappingTimeSlice

end LocationDefect

instance : Reportable LocationDefect :=
  ⟨LocationDefect.code, LocationDefect.message⟩

/-- The slices without an instant. -/
def emptySliceDefects (slices : List TimeSlice) : List LocationDefect :=
  slices.filterMap fun s =>
    if s.validFrom < s.validTo then none else some (.slicePeriod s.id s.validFrom s.validTo)

/-- The pairs of slices that overlap. -/
def overlapDefects (slices : List TimeSlice) : List LocationDefect :=
  (overlappingPairs (slices.map TimeSlice.validity)).filterMap fun (i, j) =>
    match slices[i]?, slices[j]? with
    | some a, some b => some (.sliceOverlap a.id b.id)
    | _, _ => none

/-- Every defect of a list of slices: first the periods without an instant, then the overlaps. -/
def sliceDefects (slices : List TimeSlice) : List LocationDefect :=
  if slices.isEmpty then [.noTimeSlices] else emptySliceDefects slices ++ overlapDefects slices

/-- Slices in the order of their starts. -/
def inForceOrder (slices : List TimeSlice) : List TimeSlice :=
  slices.mergeSort fun a b => a.validFrom ≤ b.validFrom

/-- A location with the slices of its formula. -/
structure FormulaLocation where
  location : LocationId
  timeSlices : List TimeSlice
  sound : ∃ given, sliceDefects given = [] ∧ timeSlices = inForceOrder given

namespace FormulaLocation

/-- The location with the given slices, or the first defect of these. -/
def build (location : LocationId) (slices : List TimeSlice) :
    Except LocationDefect FormulaLocation :=
  match h : sliceDefects slices with
  | [] => .ok ⟨location, inForceOrder slices, slices, h, rfl⟩
  | defect :: _ => .error defect

/-- The first slice with an id. -/
def slice? (l : FormulaLocation) (id : Int) : Option TimeSlice :=
  l.timeSlices.find? (·.id = id)

/-- The slice that is valid at an instant. -/
def sliceAt? (l : FormulaLocation) (t : Instant) : Option TimeSlice :=
  l.timeSlices.find? (·.covers t)

/-- The slices whose validity overlaps a period. -/
def slicesOverlapping (l : FormulaLocation) (p : Period) : List TimeSlice :=
  l.timeSlices.filter (·.validity.overlaps p)

/-- From the first start to the end of the last slice. -/
def validity? (l : FormulaLocation) : Option Period :=
  match l.timeSlices.head?, l.timeSlices.getLast? with
  | some first, some last => some ⟨first.validFrom, last.validTo⟩
  | _, _ => none

/-- A location is built exactly from slices without defects, and holds them in order. -/
theorem build_eq_ok_iff {location : LocationId} {slices : List TimeSlice} {l : FormulaLocation} :
    build location slices = .ok l ↔
      sliceDefects slices = [] ∧ l.location = location ∧
        l.timeSlices = inForceOrder slices := by
  obtain ⟨loc, ts, sound⟩ := l
  unfold build
  split
  · rename_i h
    simp only [h, true_and, Except.ok.injEq, mk.injEq]
    exact ⟨fun ⟨a, b⟩ => ⟨a.symm, b.symm⟩, fun ⟨a, b⟩ => ⟨a.symm, b.symm⟩⟩
  · rename_i h
    simp [h]

end FormulaLocation

end EnergyFormula
