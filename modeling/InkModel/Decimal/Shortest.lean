import InkModel.Decimal.Fixed

/-! # Shortest decimals

The fewest digits that read back to the same double and, of those, the ones
nearest to its value.
-/

namespace InkModel.Decimal

/-- The numbers that read back to a double, in units of a quarter of its last
bit: from `low` to `high`, with the double itself at `mid`. -/
structure ReadInterval where
  low : Quotient
  mid : Quotient
  high : Quotient
  /-- Whether the ends read back too: they round to the even mantissa. -/
  closed : Bool

/-- The interval that reads back to `m · 2 ^ e`. Below a power of two the
neighbour is only half as far away. -/
def ReadInterval.ofBinary (m : Nat) (e : Int) : ReadInterval :=
  let q (k : Nat) := Quotient.ofBinary k (e - 2)
  let gap := if m = 2 ^ fractionBits && minExponent < e then 1 else 2
  ⟨q (4 * m - gap), q (4 * m), q (4 * m + 2), m % 2 = 0⟩

/-- Whether `n · 10 ^ e` reads back to the double of the interval. -/
def ReadInterval.contains (i : ReadInterval) (n : Nat) (e : Int) : Bool :=
  let x := Quotient.ofDecimal n e
  let above := x.num * i.low.den
  let lowBound := i.low.num * x.den
  let below := x.num * i.high.den
  let highBound := i.high.num * x.den
  if i.closed then lowBound ≤ above && below ≤ highBound
  else lowBound < above && below < highBound

/-- The neighbour of the double on the grid `10 ^ e` that reads back, if one
does; of two the nearer, and the upper one when both are equally near. -/
def ReadInterval.onGrid (i : ReadInterval) (e : Int) : Option Nat :=
  let q := i.mid.shift (-e)
  let n := q.num / q.den
  let r := q.num % q.den
  match i.contains n e, i.contains (n + 1) e with
  | true, true => some (if q.den ≤ 2 * r then n + 1 else n)
  | true, false => some n
  | false, true => some (n + 1)
  | false, false => none

/-- Tries grids from `e` down, at most `fuel` of them. -/
def ReadInterval.shortestFrom (i : ReadInterval) : Nat → Int → Nat × Int
  | 0, e => (i.mid.num / i.mid.den, e)
  | fuel + 1, e =>
    match i.onGrid e with
    | some n => if n = 0 then i.shortestFrom fuel (e - 1) else (n, e)
    | none => i.shortestFrom fuel (e - 1)

/-- Removes zeros at the end of the digits `n · 10 ^ e`, at most `fuel`. -/
def trimZeros : Nat → Nat → Int → Nat × Int
  | 0, n, e => (n, e)
  | fuel + 1, n, e =>
    if n ≠ 0 && n % 10 = 0 then trimZeros fuel (n / 10) (e + 1) else (n, e)

/-- The shortest digits of the positive number `m · 2 ^ e`: a number without
zeros at its end, and the power of ten that it counts. -/
def shortestDigits (m : Nat) (e : Int) : Nat × Int :=
  let i := ReadInterval.ofBinary m e
  let (n, k) := i.shortestFrom 20 (i.mid.leadingExponent + 1)
  trimZeros 20 n k

/-- The digits `n · 10 ^ e` without an exponent, with at least `least`
decimals. -/
def positional (least n : Nat) (e : Int) : String :=
  if 0 ≤ e then
    placesOfNat least (n * 10 ^ e.toNat * 10 ^ least)
  else
    let k := (-e).toNat
    if least ≤ k then placesOfNat k n else placesOfNat least (n * 10 ^ (least - k))

structure ShortestStyle where
  leastPlaces : Nat
  /-- Whether a number whose first digit has this exponent is written with an
  exponent. -/
  withExponent : Int → Bool

/-- The shortest decimal of a double in a style. -/
def shortestWith (style : ShortestStyle) (x : Float) : String :=
  match Value.ofFloat x with
  | .nan => plainTexts.nan
  | .infinite neg => signText neg ++ plainTexts.infinity
  | .finite neg 0 _ => signText neg ++ positional style.leastPlaces 0 0
  | .finite neg m e =>
    let (n, k) := shortestDigits m e
    let first : Int := k + (digitCount n : Int) - 1
    signText neg ++
      (if style.withExponent first then scientificOfNat n first
       else positional style.leastPlaces n k)

/-- Files and messages: never an exponent, integers without a point. -/
def fileStyle : ShortestStyle := ⟨0, fun _ => false⟩

/-- Listings: always a decimal, and an exponent for very large and very small
numbers. -/
def listingStyle : ShortestStyle := ⟨1, fun k => k < -4 || 16 ≤ k⟩

/-- The shortest decimal that reads back, as files hold it. -/
def shortest (x : Float) : String := shortestWith fileStyle x

/-- The shortest decimal that reads back, as listings show it. -/
def listed (x : Float) : String := shortestWith listingStyle x

end InkModel.Decimal
