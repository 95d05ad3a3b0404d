import InkModel.CubeRoot

/-! # Numbers that the colour model computes with

Every formula of the library is written over a type `α` with a `Scalar`
structure, so that one definition has two readings: IEEE doubles, which the
program runs on, and exact arithmetic, in which its laws are stated.
-/

namespace InkModel

/-- The operations that the colour model needs of its numbers. -/
class Scalar (α : Type) extends Add α, Sub α, Mul α, Div α, Neg α, LT α, LE α where
  ofNat : Nat → α
  /-- The number that a decimal literal denotes: a mantissa, the sign of the
  exponent (true below zero) and its size. -/
  ofScientific : Nat → Bool → Nat → α
  /-- Order is decided; a comparison with an undefined number is false. -/
  ltDecidable : DecidableLT α
  /-- Order is decided; a comparison with an undefined number is false. -/
  leDecidable : DecidableLE α
  abs : α → α
  /-- The larger of two numbers; an undefined one gives way to the other. -/
  max : α → α → α
  /-- The smaller of two numbers; an undefined one gives way to the other. -/
  min : α → α → α
  sqrt : α → α
  /-- Cube root, odd on negative numbers. -/
  cbrt : α → α
  exp : α → α
  log : α → α
  /-- Largest integer that is not above the number. -/
  floor : α → α
  /-- Nearest integer; a half goes away from zero. -/
  round : α → α
  /-- The integer part, toward zero. -/
  trunc : α → Int
  /-- Whether the number is neither infinite nor undefined. -/
  isFinite : α → Bool

-- A type that has operations of its own, such as the reals, keeps them.
attribute [instance (10)] Scalar.toAdd Scalar.toSub Scalar.toMul Scalar.toDiv Scalar.toNeg
  Scalar.toLT Scalar.toLE

namespace Scalar

variable {α : Type} [Scalar α]

instance : DecidableLT α := ltDecidable

instance : DecidableLE α := leDecidable

instance (priority := 10) {n : Nat} : OfNat α n := ⟨ofNat n⟩

instance (priority := 10) : OfScientific α := ⟨ofScientific⟩

instance (priority := 10) : Inhabited α := ⟨ofNat 0⟩

/-- Whether two numbers have the same value; an undefined number differs
from every number. -/
@[inline] def eqv (x y : α) : Bool := decide (x ≤ y) && decide (y ≤ x)

/-- The square, as one multiplication. -/
@[inline] def sq (x : α) : α := x * x

/-- The sum `f 0 + f 1 + … + f (n - 1)`, added from the left. -/
@[inline] def sumBelow (n : Nat) (f : Nat → α) : α :=
  Nat.fold n (fun i _ acc => acc + f i) 0

/-- The sum of a list, added from the left. -/
@[inline] def sum (xs : List α) : α := xs.foldl (· + ·) 0

/-- Natural power by repeated squaring, from the low bit of the exponent. -/
@[specialize] def powFrom (acc base : α) (n : Nat) : α :=
  let acc := if n % 2 = 1 then acc * base else acc
  if h : n / 2 = 0 then acc else powFrom acc (base * base) (n / 2)
termination_by n
decreasing_by omega

@[inline] def pow (x : α) (n : Nat) : α := powFrom 1 x n

end Scalar

/-- The larger of two doubles, where a NaN gives way. -/
def floatMax (x y : Float) : Float :=
  if x.isNaN then y else if y.isNaN then x else if x < y then y else x

/-- The smaller of two doubles, where a NaN gives way. -/
def floatMin (x y : Float) : Float :=
  if x.isNaN then y else if y.isNaN then x else if y < x then y else x

/-- Doubles, the numbers that the program runs on. -/
instance : Scalar Float where
  ofNat := Float.ofNat
  ofScientific := Float.ofScientific
  ltDecidable := inferInstance
  leDecidable := inferInstance
  abs := Float.abs
  max := floatMax
  min := floatMin
  sqrt := Float.sqrt
  cbrt := CubeRoot.ofFloat
  exp := Float.exp
  log := Float.log
  floor := Float.floor
  round := Float.round
  trunc x := x.toInt64.toInt
  isFinite := Float.isFinite

end InkModel
