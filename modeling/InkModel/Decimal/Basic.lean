/-! # Doubles as exact quotients

A finite double is a sign and a quotient of natural numbers. Decimal digits
are computed from that quotient, so every digit that is written is exact.
-/

-- Powers of natural numbers are read in one way, whatever else is imported.
attribute [instance (1100)] instPowNat

namespace InkModel.Decimal

inductive Value where
  /-- No number. -/
  | nan
  | infinite (negative : Bool)
  /-- The number `± mantissa · 2 ^ exponent`. -/
  | finite (negative : Bool) (mantissa : Nat) (exponent : Int)
  deriving Repr, DecidableEq

/-- Bits of the fraction of a double. -/
def fractionBits : Nat := 52

/-- Exponent of the last fraction bit of the smallest doubles. -/
def minExponent : Int := -1074

def Value.ofBits (bits : Nat) : Value :=
  let negative := bits.testBit 63
  let field := (bits >>> fractionBits) % 2048
  let fraction := bits % 2 ^ fractionBits
  if field = 2047 then (if fraction = 0 then .infinite negative else .nan)
  else if field = 0 then .finite negative fraction minExponent
  else .finite negative (2 ^ fractionBits + fraction) (minExponent + (field - 1 : Nat))

def Value.ofFloat (x : Float) : Value := .ofBits x.toBits.toNat

/-- A non-negative number, as a quotient with a positive denominator. -/
structure Quotient where
  num : Nat
  den : Nat
  deriving Repr

/-- The quotient `m · 2 ^ e`. -/
def Quotient.ofBinary (m : Nat) (e : Int) : Quotient :=
  if 0 ≤ e then ⟨m * 2 ^ e.toNat, 1⟩ else ⟨m, 2 ^ (-e).toNat⟩

/-- The quotient `m · 10 ^ e`. -/
def Quotient.ofDecimal (m : Nat) (e : Int) : Quotient :=
  if 0 ≤ e then ⟨m * 10 ^ e.toNat, 1⟩ else ⟨m, 10 ^ (-e).toNat⟩

/-- The quotient times `10 ^ e`. -/
def Quotient.shift (q : Quotient) (e : Int) : Quotient :=
  if 0 ≤ e then ⟨q.num * 10 ^ e.toNat, q.den⟩ else ⟨q.num, q.den * 10 ^ (-e).toNat⟩

/-- The nearest natural number; a half goes to the even neighbour. -/
def Quotient.round (q : Quotient) : Nat :=
  let n := q.num / q.den
  let r := q.num % q.den
  if q.den < 2 * r || (2 * r = q.den && n % 2 = 1) then n + 1 else n

/-- Number of decimal digits of a natural number; one for zero. -/
def digitCount (n : Nat) : Nat := n.repr.length

/-- Raises `e` from below until `10 ^ (e + 1)` is above the quotient, at most
`fuel` times. -/
def Quotient.raiseExponent (q : Quotient) : Nat → Int → Int
  | 0, e => e
  | fuel + 1, e =>
    let p := Quotient.ofDecimal 1 (e + 1)
    if p.num * q.den ≤ q.num * p.den then q.raiseExponent fuel (e + 1) else e

/-- The exponent `e` of the leading digit of a positive quotient:
`10 ^ e ≤ q < 10 ^ (e + 1)`. -/
def Quotient.leadingExponent (q : Quotient) : Int :=
  let low : Int := (digitCount q.num : Int) - (digitCount q.den : Int) - 1
  q.raiseExponent 3 low

/-- Zeros, then the digits of `n`, together at least `width` characters. -/
def padded (width n : Nat) : String :=
  let s := n.repr
  String.ofList (List.replicate (width - s.length) '0') ++ s

end InkModel.Decimal
