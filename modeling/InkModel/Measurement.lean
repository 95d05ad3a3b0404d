import InkModel.Cgats.Reader
import InkModel.Profile.File
import InkModel.Profile.Report

/-! # Measurement files

The first table of a measurement file holds one patch in each data set. Its
keyword `COLOR_REP` names the inks and the colour space; every column is found
by its name. Device values are percentages, colours XYZ with white at 100 or
Lab, spectra relative to the norm of their band layout.
-/

namespace InkModel

open Scalar Cgats

structure Measurements (α : Type) where
  inks : InkSet
  samples : List (Sample α)
  spectral : Option (SpectralShape α)
  instrument : Option String

/-- Why a file is no measurement file. -/
inductive MeasurementError (α : Type) where
  /-- There is no table. -/
  | noTable
  | missingKeyword (name : String)
  /-- The description of the colours has no colour space. -/
  | badColorants (value : String)
  | color (cause : ColorError α)
  | missingField (name : String)
  /-- There is no colour. -/
  | noColor
  /-- The value of a keyword is no number. -/
  | badNumber (name value : String)
  /-- A value is no number. -/
  | nonNumeric (row : Nat)
  deriving Repr

variable {α : Type} [Numeral α]

/-- Why a text is no number. -/
def numberFault (s : String) : String :=
  if s.isEmpty then "cannot parse float from empty string" else "invalid float literal"

/-- The wording of the error, followed by the wording of its cause. -/
def MeasurementError.chain : MeasurementError α → List String
  | noTable => ["no table"]
  | missingKeyword name => ["missing " ++ name]
  | badColorants value => ["bad COLOR_REP: " ++ value]
  | color cause => [cause.message]
  | missingField name => ["missing field " ++ name]
  | noColor => ["no XYZ or LAB fields"]
  | badNumber name value => ["bad " ++ name ++ ": " ++ value, numberFault (Text.trimmed value)]
  | nonNumeric row => ["row " ++ row.repr ++ ": non-numeric value"]

namespace Measurements

/-- The text before the first underscore, if there is one. -/
def beforeUnderscore (s : String) : Option String :=
  if s.toList.contains '_' then some (String.ofList (s.toList.takeWhile (· != '_'))) else none

def number (t : Table α) (name : String) : Except (MeasurementError α) α :=
  match t.findKeyword? name with
  | none => .error (.missingKeyword name)
  | some s =>
    match Numeral.read? (Text.trimmed s) with
    | some x => .ok x
    | none => .error (.badNumber name s)

def column (t : Table α) (name : String) : Except (MeasurementError α) Nat :=
  match t.findField? name with
  | some i => .ok i
  | none => .error (.missingField name)

def numbers (t : Table α) (row : Nat) (cols : List Nat) : Except (MeasurementError α) (List α) :=
  cols.mapM fun col =>
    match t.real? row col with
    | some x => .ok x
    | none => .error (.nonNumeric row)

variable [Scalar α]

/-- Full value of percentages and colours. -/
@[inline] def percent : α := 100

/-- The band layout, if there is one. -/
def spectralOf (t : Table α) : Except (MeasurementError α) (Option (SpectralShape α)) :=
  match t.findKeyword? ModelFile.bandsKey with
  | none => .ok none
  | some _ => do
    let bands ← number t ModelFile.bandsKey
    let startNm ← number t ModelFile.startKey
    let endNm ← number t ModelFile.endKey
    let norm ← if (t.findKeyword? ModelFile.normKey).isSome then number t ModelFile.normKey
      else pure percent
    let shape := SpectralShape.make (Scalar.trunc bands).toNat startNm endNm norm
    (shape.map some).mapError .color

/-- Where the values of a patch stand. -/
structure Columns (α : Type) where
  device : List Nat
  color : List Nat
  encoding : ColorEncoding
  spectrum : List Nat
  shape : Option (SpectralShape α)

def colorOf (encoding : ColorEncoding) (values : List α) : Xyz α :=
  match encoding, values with
  | .lab, [l, a, b] => Lab.toXyz ⟨l, a, b⟩
  | .xyz, [x, y, z] => ⟨x / percent, y / percent, z / percent⟩
  | _, _ => ⟨0, 0, 0⟩

def sampleOf (t : Table α) (cols : Columns α) (row : Nat) :
    Except (MeasurementError α) (Sample α) := do
  let dev ← numbers t row cols.device
  let color ← numbers t row cols.color
  let spectrum ← match cols.shape with
    | none => pure none
    | some s => do
      let values ← numbers t row cols.spectrum
      pure (some (values.map (· / s.norm)).toArray)
  return {
    dev := (dev.map (· / percent)).toArray
    xyz := colorOf cols.encoding color
    spectrum
    weight := 1 }

def encodingOf (t : Table α) : Except (MeasurementError α) ColorEncoding :=
  if (t.findField? "XYZ_X").isSome then .ok .xyz
  else if (t.findField? "LAB_L").isSome then .ok .lab
  else .error .noColor

def ofTable (t : Table α) : Except (MeasurementError α) (Measurements α) := do
  let rep ← match t.findKeyword? ModelFile.inksKey with
    | some v => pure v
    | none => throw (.missingKeyword ModelFile.inksKey)
  let device ← match beforeUnderscore rep with
    | some d => pure d
    | none => throw (.badColorants rep)
  let inks ← (InkSet.ofLetters device).mapError .color
  let deviceColumns ← inks.inks.mapM fun ink =>
    column t (device ++ "_" ++ ink.letter.toString)
  let encoding ← encodingOf t
  let color ← encoding.fields.mapM (column t)
  let shape ← spectralOf t
  let spectrum ← match shape with
    | some s => (t.findFieldsFrom (ModelFile.spectralField s) #[] s.bands).mapError .missingField
    | none => pure []
  let samples ← (List.range t.size).mapM
    (sampleOf t ⟨deviceColumns, color, encoding, spectrum, shape⟩)
  return { inks, samples, spectral := shape, instrument := t.findKeyword? ModelFile.instrumentKey }

/-- The measurements of the first table of a file. -/
def ofFile (f : File α) : Except (MeasurementError α) (Measurements α) :=
  match f with
  | [] => .error .noTable
  | t :: _ => ofTable t

end Measurements

end InkModel
