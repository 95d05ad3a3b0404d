/-! # Failures

A computation on tables has no result where it refuses what it was given, and none either where it
reaches outside a table: that ends the program.
-/

namespace InkModel

/-- Why a computation has no result. -/
inductive Failure (ε : Type) where
  /-- An access lies outside its table, or a difference below zero. -/
  | outside
  | refused (cause : ε)
  deriving Repr

def Failure.map {ε δ : Type} (f : ε → δ) : Failure ε → Failure δ
  | outside => outside
  | refused cause => refused (f cause)

end InkModel
