import InkModel.Decimal.Reader
import InkModel.Decimal.Shortest

/-! # Texts of numbers

What files and messages need of a number: a text, and a reading of texts. A
double is written as the shortest decimal that reads back to it.
-/

namespace InkModel

class Numeral (α : Type) where
  /-- The text of a number, as files and messages hold it. -/
  text : α → String
  read? : String → Option α
  /-- The text of a number with the given count of decimals. -/
  places : Nat → α → String

/-- Doubles, by their shortest decimals. -/
instance : Numeral Float where
  text := Decimal.shortest
  read? := Decimal.readFloat
  places := Decimal.places

end InkModel
