import InkModel.Decimal.Basic

/-! # Reading decimals

A decimal is a sign, digits with at most one point and at least one digit, and
an exponent; or a name for infinity or for no number, in any case. It is read
as the nearest double. Counts are digits with an optional plus sign.
-/

namespace InkModel.Decimal

/-- Bits of a quotient rounded to the nearest double; a half goes to the even
neighbour, and what lies beyond the largest double becomes infinite. -/
def Quotient.nearestBits (q : Quotient) : Nat :=
  if q.num = 0 then 0
  else
    -- 2 ^ (k - 1) < q < 2 ^ (k + 1), corrected so that 2 ^ k ≤ q < 2 ^ (k + 1)
    let k : Int := (q.num.log2 : Int) - (q.den.log2 : Int)
    let p := Quotient.ofBinary 1 k
    let k := if p.num * q.den ≤ q.num * p.den then k else k - 1
    let e := max minExponent (k - fractionBits)
    let scaled : Quotient :=
      if 0 ≤ e then ⟨q.num, q.den * 2 ^ e.toNat⟩ else ⟨q.num * 2 ^ (-e).toNat, q.den⟩
    -- A mantissa that rounds up to the next power of two carries into the exponent.
    let bits := scaled.round + (e - minExponent).toNat * 2 ^ fractionBits
    min bits (2047 * 2 ^ fractionBits)

/-- The double nearest to `± q`. -/
def Quotient.toFloat (q : Quotient) (negative : Bool) : Float :=
  let x := Float.ofBits (UInt64.ofNat q.nearestBits)
  if negative then -x else x

def digitsValue (ds : List Char) : Nat :=
  ds.foldl (fun n c => 10 * n + (c.toNat - '0'.toNat)) 0

/-- An optional sign in front: whether it was a minus, and the rest. -/
def takeSign : List Char → Bool × List Char
  | '-' :: cs => (true, cs)
  | '+' :: cs => (false, cs)
  | cs => (false, cs)

/-- The exponent of a decimal: nothing, or `e`, a sign and digits up to the
end. -/
def readExponent : List Char → Option Int
  | [] => some 0
  | c :: cs =>
    if c = 'e' || c = 'E' then
      let (neg, ds) := takeSign cs
      if ds.isEmpty || !ds.all Char.isDigit then none
      else some (if neg then -(digitsValue ds : Int) else digitsValue ds)
    else none

/-- The exponent beyond which a decimal of `digits` digits is infinite or
zero whatever they are. -/
def exponentBound (digits : Nat) : Int := 400 + digits

/-- The quotient of digits and an exponent; exponents far outside the range of
doubles count as the bound. -/
def quotientOf (ds : List Char) (e : Int) : Quotient :=
  let m := digitsValue ds
  if m = 0 then ⟨0, 1⟩
  else
    let b := exponentBound ds.length
    .ofDecimal m (max (-b) (min b e))

/-- Digits, a point, digits and an exponent. -/
def readDigits (cs : List Char) : Option Quotient :=
  let whole := cs.takeWhile Char.isDigit
  let rest := cs.dropWhile Char.isDigit
  let (fraction, tail) := match rest with
    | '.' :: r => (r.takeWhile Char.isDigit, r.dropWhile Char.isDigit)
    | r => ([], r)
  if whole.isEmpty && fraction.isEmpty then none
  else
    (readExponent tail).map fun e => quotientOf (whole ++ fraction) (e - (fraction.length : Int))

def infinityNames : List String := ["inf", "infinity"]

/-- Name of no number. -/
def nanName : String := "nan"

def readFloat (s : String) : Option Float :=
  let (neg, cs) := takeSign s.toList
  let lower := String.ofList (cs.map Char.toLower)
  if infinityNames.contains lower then some (if neg then -(1.0 / 0.0) else 1.0 / 0.0)
  else if lower = nanName then some (0.0 / 0.0)
  else (readDigits cs).map fun q => q.toFloat neg

/-- Counts are below this bound. -/
def countBound : Nat := 2 ^ (64 : Nat)

/-- Reads a natural number below the bound: digits behind an optional plus. -/
def readCount (s : String) : Option Nat :=
  let ds := match s.toList with
    | '+' :: r => r
    | r => r
  if ds.isEmpty || !ds.all Char.isDigit then none
  else
    let n := digitsValue ds
    if n < countBound then some n else none

end InkModel.Decimal
