import EnergyFormula.Document.Formula
import EnergyFormula.Location.Basic

/-!
# Location documents

The interchange form of formula locations, with every field optional.  `FormulaLocation.document`
is the document of a location.
-/

namespace EnergyFormula

open Document

/-- A time slice. -/
structure SliceDocument where
  id : Option Int
  quality : Option String
  validFrom : Option String
  validTo : Option String
  formula : Option FormulaDocument

/-- A location with its time slices. -/
structure LocationDocument where
  marketId : Option String
  networkId : Option String
  slices : Option (List SliceDocument)

/-- The id that is given, the one of a market location first. -/
def LocationDocument.givenId (d : LocationDocument) : Option String :=
  d.marketId <|> d.networkId

/-- The slices, none if the field is absent. -/
def LocationDocument.givenSlices (d : LocationDocument) : List SliceDocument :=
  d.slices.getD []

/-- The slice that a value holds. -/
def SliceDocument.read (v : Json) : Decoded SliceDocument :=
  let fields : Record v SliceDocument :=
    SliceDocument.mk <$> .optional ["timeSliceId"] integer
      <*> .optional ["timeSliceQuality"] string
      <*> .optional ["periodOfUseFrom"] string
      <*> .optional ["periodOfUseTo"] string
      <*> .optional ["calculationFormula"] FormulaDocument.read
  fields.read

/-- The slice as it is written. -/
def SliceDocument.write (d : SliceDocument) : Json :=
  object [("timeSliceId", d.id.map .integer), ("timeSliceQuality", d.quality.map .string),
    ("periodOfUseFrom", d.validFrom.map .string), ("periodOfUseTo", d.validTo.map .string),
    ("calculationFormula", d.formula.map FormulaDocument.write)]

/-- The location that a value holds. -/
def LocationDocument.read (v : Json) : Decoded LocationDocument :=
  let fields : Record v LocationDocument :=
    LocationDocument.mk <$> .optional ["maloId"] string
      <*> .optional ["neloId"] string
      <*> .optional ["calculationFormulaTimeSlices"] (list SliceDocument.read)
  fields.read

/-- The location as it is written. -/
def LocationDocument.write (d : LocationDocument) : Json :=
  object [("maloId", d.marketId.map .string), ("neloId", d.networkId.map .string),
    ("calculationFormulaTimeSlices", d.slices.map (array SliceDocument.write))]

/-- The document of a slice. -/
def TimeSlice.document (s : TimeSlice) : SliceDocument :=
  { id := some s.id
    quality := some s.quality.text
    validFrom := some s.validFrom.text
    validTo := some s.validTo.text
    formula := some s.formula.document }

/-- The document of an id with slices. -/
def LocationId.document (id : LocationId) (slices : List SliceDocument) : LocationDocument :=
  ⟨id.marketText?, id.networkText?, some slices⟩

/-- The document of a location. -/
def FormulaLocation.document (l : FormulaLocation) : LocationDocument :=
  l.location.document (l.timeSlices.map TimeSlice.document)

end EnergyFormula
