import InkModel.Cgats.Writer
import InkModel.Profile.Model

/-! # Model files

A model is stored as one table. Keywords hold its configuration; each data set
is one parameter, named by its id, with its value in every band:

* `t_m_o`: transfer coefficient of harmonic `o` of channel `m`;
* `s_m_c`: shape parameter of channel `m` at the combination `c` of the others;
* `c_c`: the primary of combination `c`, as XYZ or as Lab.

Settings of the black point search are stored where they differ from the usual
ones, so that a model that is read finds the same black.
-/

namespace InkModel

open Scalar Cgats

inductive ColorEncoding where
  /-- As XYZ, exactly as modelled. -/
  | xyz
  | lab
  deriving Repr, DecidableEq

def ColorEncoding.fields : ColorEncoding → List String
  | xyz => ["XYZ_X", "XYZ_Y", "XYZ_Z"]
  | lab => ["LAB_L", "LAB_A", "LAB_B"]

/-- A whole number in at least three characters, filled with zeros behind its
sign. -/
def threeDigits (n : Int) : String :=
  if n < 0 then "-" ++ Decimal.padded 2 n.natAbs else Decimal.padded 3 n.natAbs

namespace ModelFile

def classKey : String := "DEVICE_CLASS"

def inksKey : String := "COLOR_REP"

def instrumentKey : String := "TARG_INSTRUMENT"

def createdKey : String := "CREATED"

/-- Keyword of the ink limit in percent. -/
def limitKey : String := "TOTAL_INK_LIMIT"

def orderKey : String := "TRANSFER_ORDERS"

def shapedKey : String := "SHAPE_PARAMS"

def bandsKey : String := "SPECTRAL_BANDS"

def startKey : String := "SPECTRAL_START_NM"

def endKey : String := "SPECTRAL_END_NM"

def normKey : String := "SPECTRAL_NORM"

/-- The keywords of a band layout; all or none are given. -/
def spectralKeys : List String := [bandsKey, startKey, endKey, normKey]

/-- Keyword of the random starts of the black point search. -/
def restartsKey : String := "BLACK_RESTARTS"

def seedKey : String := "BLACK_SEED"

def neutralKey : String := "BLACK_NEUTRAL_WEIGHT"

def rangeKey : String := "BLACK_RANGE_WEIGHT"

/-- Keyword of the objective above which no black point is accepted. -/
def failKey : String := "BLACK_FAIL"

def idField : String := "PARAM_ID"

def yesText : String := "YES"

def noText : String := "NO"

def transferId (channel harmonic : Nat) : String := "t_" ++ channel.repr ++ "_" ++ harmonic.repr

def shapeId (channel comb : Nat) : String := "s_" ++ channel.repr ++ "_" ++ comb.repr

def primaryId (comb : Nat) : String := "c_" ++ comb.repr

variable {α : Type} [Scalar α]

/-- The field of spectral band `i`, named for its wavelength. -/
def spectralField (s : SpectralShape α) (i : Nat) : String :=
  "SPEC_" ++ threeDigits (Scalar.trunc (Scalar.round (s.wavelength i)))

def spectralFields (spectral : Option (SpectralShape α)) : List String :=
  match spectral with
  | some s => (List.range s.bands).map (spectralField s)
  | none => []

variable [Numeral α]

/-- Writes a setting where it differs from the usual one. -/
def addChanged (t : Table α) (key : String) (changed : Bool) (value : String) : Table α :=
  if changed then t.addKeyword key value else t

/-- Writes the settings of the black point search that differ from the usual
ones. -/
def addBlackSettings (t : Table α) (u : Tuning α) : Table α :=
  let d : Tuning α := .default
  let t := addChanged t restartsKey (u.blackRestarts ≠ d.blackRestarts) u.blackRestarts.repr
  let t := addChanged t seedKey (u.blackSeed ≠ d.blackSeed) u.blackSeed.repr
  let t := addChanged t neutralKey (!eqv u.neutralWeight d.neutralWeight)
    (Numeral.text u.neutralWeight)
  let t := addChanged t rangeKey (!eqv u.rangeWeight d.rangeWeight) (Numeral.text u.rangeWeight)
  addChanged t failKey (!eqv u.blackFail d.blackFail) (Numeral.text u.blackFail)

def addSpectral (t : Table α) (spectral : Option (SpectralShape α)) : Table α :=
  match spectral with
  | none => t
  | some s =>
    (((t.addKeyword bandsKey s.bands.repr).addKeyword startKey (Numeral.text s.startNm)).addKeyword
      endKey (Numeral.text s.endNm)).addKeyword normKey (Numeral.text s.norm)

/-- The table of a model with all keywords and neither fields nor data. -/
def header (m : Model α) : Table α :=
  let p := m.parts
  let t : Table α := { kind := modelKind }
  let t := t.addKeyword "DESCRIPTOR" "Model Printer Profile"
  let t := t.addKeyword "ORIGINATOR" "mpp-rs 0.1.0"
  let t := t.addKeyword? createdKey p.created
  let t := t.addKeyword classKey m.deviceClass.name
  let t := t.addKeyword inksKey p.inks.letters
  let t := t.addKeyword? instrumentKey p.instrument
  let t := t.addKeyword? limitKey (m.limit.map fun l => Numeral.text (l * 100))
  let t := t.addKeyword orderKey p.order.repr
  let t := t.addKeyword shapedKey (if p.shaped then yesText else noText)
  addSpectral (addBlackSettings t m.tuning) p.spectral

/-- The data set of a parameter with the given value in each band. -/
def parameterRow (id : String) (values : List α) : Array (Cell α) :=
  (.text id :: values.map .real).toArray

def transferRows (p : Parts α) : List (Array (Cell α)) :=
  (List.range p.layout.channels).flatMap fun m =>
    (List.range p.order).map fun o =>
      parameterRow (transferId m o)
        (p.bands.toList.map fun b => b.transfer.getD (m * p.order + o) 0)

/-- The data sets of the shape parameters, slot by slot. -/
def shapeRows (p : Parts α) : List (Array (Cell α)) :=
  let slots := p.layout.slotsPerChannel
  (List.range p.layout.channels).flatMap fun m =>
    (List.range slots).map fun i =>
      parameterRow (shapeId m (slotComb m i))
        (p.bands.toList.map fun b => b.shape.getD (m * slots + i) 0)

/-- The primaries of a combination in an encoding: the first three bands are a
colour. -/
def encodePrimaries (enc : ColorEncoding) (values : List α) : List α :=
  match enc, values with
  | .lab, x :: y :: z :: rest => (Xyz.toLab ⟨x, y, z⟩).toList ++ rest
  | _, vs => vs

def decodePrimaries (enc : ColorEncoding) (values : List α) : List α :=
  match enc, values with
  | .lab, l :: a :: b :: rest => (Lab.toXyz ⟨l, a, b⟩).toList ++ rest
  | _, vs => vs

def primaryRows (enc : ColorEncoding) (p : Parts α) : List (Array (Cell α)) :=
  (List.range p.layout.combinations).map fun c =>
    parameterRow (primaryId c)
      (encodePrimaries enc (p.bands.toList.map fun b => b.primaries.getD c 0))

def toTable (enc : ColorEncoding) (m : Model α) : Except TableError (Table α) := do
  let t ← (header m).addField idField .text
  let t ← t.addFields .real (enc.fields ++ spectralFields m.parts.spectral)
  t.addSets (transferRows m.parts ++ shapeRows m.parts ++ primaryRows enc m.parts)

/-- The value of a keyword that must be there. -/
def keyword (t : Table α) (name : String) : Except (FormatFault α) String :=
  match t.findKeyword? name with
  | some v => .ok v
  | none => .error (.missingKeyword name)

/-- The value of a keyword, read by `read?` without white space at its ends. -/
def readKeyword {β : Type} (read? : String → Option β) (t : Table α) (name : String) :
    Except (FormatFault α) β := do
  let s ← keyword t name
  match read? (Text.trimmed s) with
  | some v => .ok v
  | none => .error (.badKeyword name s)

/-- The value of a keyword that may be absent. -/
def readKeyword? {β : Type} (read? : String → Option β) (t : Table α) (name : String) :
    Except (FormatFault α) (Option β) :=
  match t.findKeyword? name with
  | none => .ok none
  | some _ => (readKeyword read? t name).map some

def readBlackSettings (t : Table α) : Except (FormatFault α) (Tuning α) := do
  let d : Tuning α := .default
  let restarts ← readKeyword? Decimal.readCount t restartsKey
  let seed ← readKeyword? Decimal.readCount t seedKey
  let neutral ← readKeyword? Numeral.read? t neutralKey
  let range ← readKeyword? Numeral.read? t rangeKey
  let fail ← readKeyword? Numeral.read? t failKey
  return { d with
    blackRestarts := restarts.getD d.blackRestarts
    blackSeed := seed.getD d.blackSeed
    neutralWeight := neutral.getD d.neutralWeight
    rangeWeight := range.getD d.rangeWeight
    blackFail := fail.getD d.blackFail }

/-- The colorants, which must belong to the device class. -/
def readInks (t : Table α) : Except (FormatFault α) InkSet := do
  let inks ← (InkSet.ofLetters (← keyword t inksKey)).mapError .colorants
  let name ← keyword t classKey
  if name = inks.deviceClass.name then .ok inks
  else if name = DeviceClass.output.name ∨ name = DeviceClass.display.name then
    .error (.classMismatch name inks.letters)
  else .error (.unknownClass name)

def readOrder (t : Table α) : Except (FormatFault α) Nat := do
  let order ← readKeyword Decimal.readCount t orderKey
  if order < 1 ∨ maxOrder < order then .error (.order order) else .ok order

def readShaped (t : Table α) : Except (FormatFault α) Bool :=
  match t.findKeyword? shapedKey with
  | none => .ok false
  | some s =>
    if s = noText then .ok false
    else if s = yesText then .ok true
    else .error (.badKeyword shapedKey s)

def readSpectral (t : Table α) : Except (FormatFault α) (Option (SpectralShape α)) :=
  let given := spectralKeys.filter fun k => (t.findKeyword? k).isSome
  if given.isEmpty then .ok none
  else if given.length = spectralKeys.length then do
    let bands ← readKeyword Decimal.readCount t bandsKey
    let startNm ← readKeyword Numeral.read? t startKey
    let endNm ← readKeyword Numeral.read? t endKey
    let norm ← readKeyword Numeral.read? t normKey
    ((SpectralShape.make bands startNm endNm norm).map some).mapError .spectral
  else .error (.partialSpectral spectralKeys)

/-- The position of a field that must be there. -/
def column (t : Table α) (name : String) : Except (FormatFault α) Nat :=
  match t.findField? name with
  | some i => .ok i
  | none => .error (.missingField name)

/-- The positions of the fields of a band layout. -/
def spectralColumns (t : Table α) (spectral : Option (SpectralShape α)) :
    Except (FormatFault α) (List Nat) :=
  match spectral with
  | some s => (t.findFieldsFrom (spectralField s) #[] s.bands).mapError .missingField
  | none => .ok []

/-- The rows by their ids, the last first. -/
def idIndex (t : Table α) (col : Nat) : List (String × Nat) :=
  (List.range t.size).foldl (fun acc row =>
    match t.text? row col with
    | some id => (id, row) :: acc
    | none => acc) []

/-- The values of a parameter in the given columns. -/
def parameter (t : Table α) (index : List (String × Nat)) (cols : List Nat) (id : String) :
    Except (FormatFault α) (List α) :=
  match index.find? fun (k, _) => k == id with
  | none => .error (.missingParameter id)
  | some (_, row) => cols.mapM fun col =>
    match t.real? row col with
    | some x => .ok x
    | none => .error (.nonNumeric id)

/-- The combinations of `n` channels without channel `m`. -/
def combinationsWithout (n m : Nat) : List Nat :=
  (List.range (2 ^ n)).filter fun c => !c.testBit m

/-- The ids of the transfer coefficients in their order in a band. -/
def transferIds (l : Layout) : List String :=
  (List.range l.channels).flatMap fun m => (List.range l.order).map (transferId m)

/-- The ids of the shape parameters in their order in a band. -/
def shapeIds (l : Layout) : List String :=
  if l.shaped then
    (List.range l.channels).flatMap fun m => (combinationsWithout l.channels m).map (shapeId m)
  else []

/-- The ids of the primaries in their order in a band. -/
def primaryIds (l : Layout) : List String := (List.range l.combinations).map primaryId

/-- Entry `j` of every row, as the table of band `j`. -/
def bandColumn (rows : Array (Array α)) (j : Nat) : Array α :=
  rows.map fun row => row.getD j 0

/-- The values of the parameters `ids` in all bands, parameter by parameter. -/
def parameterTable (values : String → Except (FormatFault α) (List α)) (ids : List String) :
    Except (FormatFault α) (Array (Array α)) :=
  (ids.mapM values).map fun rows => (rows.map List.toArray).toArray

def readParts (t : Table α) : Except (FormatFault α) (Parts α) := do
  let inks ← readInks t
  let order ← readOrder t
  let shaped ← readShaped t
  let limit ← readKeyword? Numeral.read? t limitKey
  let spectral ← readSpectral t
  let idColumn ← column t idField
  let enc : ColorEncoding := if (t.findField? "XYZ_X").isSome then .xyz else .lab
  let colorColumns ← enc.fields.mapM (column t)
  let cols := colorColumns ++ (← spectralColumns t spectral)
  let l : Layout := ⟨inks.count, order, shaped⟩
  let values := parameter t (idIndex t idColumn) cols
  let transfer ← parameterTable values (transferIds l)
  let shape ← parameterTable values (shapeIds l)
  let primaries ← parameterTable (fun id => (values id).map (decodePrimaries enc)) (primaryIds l)
  return {
    inks
    limit := limit.map (· / 100)
    order
    shaped
    spectral
    instrument := t.findKeyword? instrumentKey
    created := t.findKeyword? createdKey
    bands := (Array.range cols.length).map fun j =>
      ⟨bandColumn transfer j, bandColumn shape j, bandColumn primaries j⟩ }

/-- The parameters and the settings of the first table of a file. -/
def read (f : File α) : Except (FormatFault α) (Parts α × Tuning α) :=
  match f with
  | [] => .error .noTable
  | t :: _ =>
    if t.kind ≠ modelKind then .error (.kind t.kind)
    else do
      let parts ← readParts t
      let tuning ← readBlackSettings t
      return (parts, tuning)

end ModelFile

namespace Model

variable {α : Type} [Scalar α] [Numeral α]

def toFile (m : Model α) (enc : ColorEncoding) : Except (ModelError α) (File α) :=
  ((ModelFile.toTable enc m).map fun t => [t]).mapError .table

@[specialize] def ofFile (solver : Solver α) (f : File α) :
    Except (ModelError α) (Model α) := do
  let (parts, tuning) ← (ModelFile.read f).mapError .format
  build solver parts tuning

end Model

end InkModel
