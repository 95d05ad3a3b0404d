import InkModel.Decimal.Numeral

/-! # Errors of colour computations -/

namespace InkModel

inductive ColorError (α : Type) where
  /-- A character names no ink. -/
  | unknownInk (letter : Char)
  /-- No ink is named. -/
  | noInk
  | repeatedInk (letter : Char) (description : String)
  | tooFewBands (bands : Nat)
  /-- A band layout does not ascend. -/
  | emptyRange (startNm endNm : α)
  /-- The value of full reflectance is not positive. -/
  | badNorm (norm : α)
  /-- A spectrum has the wrong number of bands. -/
  | spectrumLength (expected actual : Nat)
  /-- A name names no illuminant. -/
  | unknownIlluminant (name : String)
  deriving Repr

namespace ColorError

variable {α : Type} [Numeral α]

def message : ColorError α → String
  | unknownInk c => "unknown colorant '" ++ c.toString ++ "'"
  | noInk => "invalid colorant description: empty"
  | repeatedInk c s =>
    "invalid colorant description: '" ++ c.toString ++ "' repeated in " ++ s
  | tooFewBands n => "invalid spectral shape: " ++ n.repr ++ " bands"
  | emptyRange a b =>
    "invalid spectral shape: range " ++ Numeral.text a ++ ".." ++ Numeral.text b ++ " nm"
  | badNorm x => "invalid spectral shape: norm " ++ Numeral.text x
  | spectrumLength expected actual =>
    "spectrum has " ++ actual.repr ++ " bands, expected " ++ expected.repr
  | unknownIlluminant s => "unknown illuminant: " ++ s

end ColorError

end InkModel
