import InkModel.Decimal.Basic

/-! # Cube roots

The cube root of a double, rounded correctly: of all doubles the one nearest to
the exact root. It is computed from the integer part of the cube root of a
natural number, which Newton's iteration finds from above.
-/

namespace InkModel.CubeRoot

/-- One step of Newton's iteration for the cube root of `n`. From any number
that is not below the root it does not go below the integer part of the root. -/
def newtonStep (n r : Nat) : Nat := (2 * r + n / (r * r)) / 3

def descend (n r : Nat) : Nat :=
  let s := newtonStep n r
  if s < r then descend n s else r
termination_by r

/-- Bits that the root of `n` has below those found from the leading half of
`n`. -/
def halfBits (n : Nat) : Nat := n.log2 / 6 + 1

theorem shiftRight_halfBits_lt {n : Nat} (h : 8 ≤ n) : n >>> (3 * halfBits n) < n := by
  rw [Nat.shiftRight_eq_div_pow]
  exact Nat.div_lt_self (by omega) (Nat.one_lt_two_pow (by simp [halfBits]))

/-- Integer part of the cube root. The leading half of the digits is found
first; its successor, moved back into place, is where the iteration starts. -/
def floorRoot (n : Nat) : Nat :=
  if _h : 8 ≤ n then
    let k := halfBits n
    descend n ((floorRoot (n >>> (3 * k)) + 1) <<< k)
  else min n 1
termination_by n
decreasing_by exact shiftRight_halfBits_lt _h

/-- Exponent of the leading bit of the numbers whose roots are taken. Their
roots have one bit more than a double holds. -/
def scaledExponent : Nat := 3 * Decimal.fractionBits + 5

/-- Cube root of the positive number `m · 2 ^ e`. The number is scaled by a
power of two that has a cube root; the last bit of its integer root decides
how to round. It never stands for a tie, as no such root is exact. -/
def ofBinary (m : Nat) (e : Int) : Float :=
  let top := e + m.log2 - scaledExponent
  let shift := scaledExponent - m.log2 - (-top % 3).toNat
  let root := floorRoot (m <<< shift)
  Float.scaleB (Float.ofNat ((root + 1) / 2)) ((e - shift) / 3 + 1)

/-- Cube root of a double; a zero, an infinity and a NaN are their own. -/
def ofFloat (x : Float) : Float :=
  match Decimal.Value.ofFloat x with
  | .finite negative m e =>
    if m = 0 then x else if negative then -ofBinary m e else ofBinary m e
  | _ => x

end InkModel.CubeRoot
