import InkModel.Cgats.Table
import InkModel.Color.InkSet
import InkModel.Device.Layout
import InkModel.Search.Basic

/-! # Errors of models -/

namespace InkModel

inductive SampleFault (α : Type) where
  | deviceCount (found expected : Nat)
  /-- A device or colour value is not finite. -/
  | nonFinite
  | weight (value : α)
  | spectrumCount (found expected : Nat)
  /-- There is no spectrum. -/
  | noSpectrum
  deriving Repr

inductive BandTable where
  | transfer
  | shape
  | primaries
  deriving Repr, DecidableEq

/-- What a table of a band holds, in words. -/
def BandTable.contents : BandTable → String
  | transfer => "transfer coefficients"
  | shape => "shape parameters"
  | primaries => "primary combinations"

inductive ArgumentFault (α : Type) where
  | primaryCount (found channels expected : Nat)
  /-- The order of the transfer curves is out of range. -/
  | order (order : Nat)
  | bandCount (found expected : Nat)
  /-- A table of a band has the wrong size. -/
  | tableSize (band found : Nat) (table : BandTable) (expected : Nat)
  /-- The ink limit is not positive. -/
  | limit (limit : α)
  /-- There is no such band. -/
  | noBand (band bands : Nat)
  /-- The detail of a gamut is not positive and finite. -/
  | detail (detail : α)
  /-- The detail of a gamut needs too many samples. -/
  | tooFine (detail count : α)
  deriving Repr

inductive FormatFault (α : Type) where
  /-- There is no table. -/
  | noTable
  | kind (found : String)
  | missingKeyword (name : String)
  /-- The value of a keyword cannot be read. -/
  | badKeyword (name value : String)
  | colorants (cause : ColorError α)
  /-- The device class does not belong to the colorants. -/
  | classMismatch (deviceClass colorants : String)
  | unknownClass (deviceClass : String)
  /-- The order of the transfer curves is out of range. -/
  | order (order : Nat)
  | spectral (cause : ColorError α)
  /-- Some, but not all, keywords of a band layout are given. -/
  | partialSpectral (names : List String)
  | missingField (name : String)
  | missingParameter (id : String)
  /-- A value of a parameter is no number. -/
  | nonNumeric (id : String)
  deriving Repr

/-- Why a model cannot be fitted, queried, read or written. -/
inductive ModelError (α : Type) where
  | tooManyInks (count : Nat)
  | tooManyBands (count : Nat)
  /-- There are no samples. -/
  | noSamples
  | invalidSample (index : Nat) (fault : SampleFault α)
  /-- No black point was acceptable; the best objective, if there was any. -/
  | blackPoint (best : Option α)
  | invalidArgument (fault : ArgumentFault α)
  | format (fault : FormatFault α)
  /-- The model has no spectral bands. -/
  | notSpectral
  /-- A minimization could not run. -/
  | minimize (cause : MinimizeError α)
  | color (cause : ColorError α)
  /-- A table could not be read or built. -/
  | table (cause : Cgats.TableError)
  deriving Repr

section Messages

variable {α : Type} [Numeral α]

def SampleFault.message : SampleFault α → String
  | deviceCount found expected =>
    found.repr ++ " device values, expected " ++ expected.repr
  | nonFinite => "non-finite value"
  | weight w => "weight " ++ Numeral.text w
  | spectrumCount found expected =>
    found.repr ++ " spectral values, expected " ++ expected.repr
  | noSpectrum => "missing spectrum"

/-- The range of transfer orders, in words. -/
def orderRange : String := "outside 1..=" ++ maxOrder.repr

def maxGamutSamples : Nat := 4000000

def ArgumentFault.message : ArgumentFault α → String
  | primaryCount found channels expected =>
    found.repr ++ " primaries for " ++ channels.repr ++ " channels, expected " ++ expected.repr
  | order n => "transfer order " ++ n.repr ++ " " ++ orderRange
  | bandCount found expected => found.repr ++ " bands, expected " ++ expected.repr
  | tableSize band found table expected =>
    "band " ++ band.repr ++ ": " ++ found.repr ++ " " ++ table.contents ++
      ", expected " ++ expected.repr
  | limit l => "ink limit " ++ Numeral.text l
  | noBand band bands => "band " ++ band.repr ++ " of " ++ bands.repr
  | detail d => "gamut detail " ++ Numeral.text d
  | tooFine d count =>
    "gamut detail " ++ Numeral.text d ++ " needs " ++ Numeral.places 0 count ++
      " samples, at most " ++ maxGamutSamples.repr ++ " allowed"

def modelKind : String := "MPP"

/-- The wording of a fault of a model file. -/
def FormatFault.message : FormatFault α → String
  | noTable => "no table"
  | kind found => "table type " ++ found ++ ", expected " ++ modelKind
  | missingKeyword name => "missing " ++ name
  | badKeyword name value => "bad " ++ name ++ ": " ++ value
  | colorants cause => "COLOR_REP: " ++ cause.message
  | classMismatch c inks => "DEVICE_CLASS " ++ c ++ " does not match COLOR_REP " ++ inks
  | unknownClass c => "unknown DEVICE_CLASS " ++ c
  | order n => "TRANSFER_ORDERS " ++ n.repr ++ " " ++ orderRange
  | spectral cause => cause.message
  | partialSpectral names => String.intercalate ", " names ++ " must appear together"
  | missingField name => "missing field " ++ name
  | missingParameter id => "missing parameter " ++ id
  | nonNumeric id => id ++ ": non-numeric value"

def MinimizeError.message : MinimizeError α → String
  | empty => "nothing to minimize: zero parameters"
  | dimensionMismatch params radii =>
    "dimension mismatch: " ++ params.repr ++ " parameters, " ++ radii.repr ++ " search radii"
  | nonFinite v => "objective is not finite at the start point: " ++ Numeral.text v
  | solver reason => "solver failed: " ++ reason

def ModelError.message : ModelError α → String
  | tooManyInks n => n.repr ++ " colorants, at most " ++ maxInks.repr ++ " supported"
  | tooManyBands n => n.repr ++ " spectral bands, at most " ++ maxBands.repr ++ " supported"
  | noSamples => "no samples to fit"
  | invalidSample i fault => "sample " ++ i.repr ++ ": " ++ fault.message
  | blackPoint best =>
    "black point search failed (best objective " ++
      (match best with
        | some x => Numeral.places 3 x
        | none => "inf") ++ ")"
  | invalidArgument fault => "invalid argument: " ++ fault.message
  | format fault => "model file: " ++ fault.message
  | notSpectral => "model has no spectral bands"
  | minimize cause => cause.message
  | color cause => cause.message
  | table cause => cause.message

/-- The wording of a model error, followed by the wording of its cause. -/
def ModelError.chain : ModelError α → List String
  | table cause => cause.chain
  | e => [e.message]

end Messages

end InkModel
