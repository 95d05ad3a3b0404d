import InkModel.Decimal.Basic

/-! # Fixed places

Writes a double with a given number of decimals. The exact value is rounded once; a half goes to
the even neighbour.
-/

namespace InkModel.Decimal

/-- Texts of the values that have no digits. -/
structure SpecialTexts where
  nan : String
  /-- Text of infinity, behind its sign. -/
  infinity : String

def plainTexts : SpecialTexts := ⟨"NaN", "inf"⟩

/-- A sign, or nothing. -/
def signText (negative : Bool) : String := if negative then "-" else ""

/-- The text of `n / 10 ^ places`. -/
def placesOfNat (places n : Nat) : String :=
  if places = 0 then n.repr
  else (n / 10 ^ places).repr ++ "." ++ padded places (n % 10 ^ places)

/-- The value with `places` decimals. -/
def places (places : Nat) (x : Float) : String :=
  match Value.ofFloat x with
  | .nan => plainTexts.nan
  | .infinite neg => signText neg ++ plainTexts.infinity
  | .finite neg m e =>
    signText neg ++ placesOfNat places ((Quotient.ofBinary m e).shift places).round

/-- A leading digit, further digits and an exponent: the digits of `n` with
the point behind the first. -/
def scientificOfNat (n : Nat) (exponent : Int) : String :=
  let ds := n.repr.toList
  let rest := ds.drop 1
  let point := if rest.isEmpty then "" else "."
  String.ofList (ds.take 1) ++ point ++ String.ofList rest ++ "e" ++ toString exponent

end InkModel.Decimal
