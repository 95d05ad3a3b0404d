import InkModel.Scalar

/-! # Scalar interpolation and warping

Linear interpolation, clamping, and the rational bias: the one-parameter
family of monotone warps of `[0, 1]` from which transfer curves and ink
interaction are built.
-/

namespace InkModel

open Scalar

variable {α : Type} [Scalar α]

/-- Linear interpolation: `a` at `t = 0`, `b` at `t = 1`, extended beyond. -/
@[inline] def lerp (a b t : α) : α := a + (b - a) * t

/-- Clamps to `[lo, hi]`; an undefined value becomes `lo`. -/
@[inline] def clamp (x lo hi : α) : α := Scalar.min (Scalar.max x lo) hi

/-- Clamps to `[0, 1]`; an undefined value becomes 0. -/
@[inline] def saturate (x : α) : α := clamp x 0 1

/-- Clamps to `[lo, hi]` and leaves an undefined value undefined. -/
@[inline] def confine (x lo hi : α) : α :=
  if x < lo then lo else if hi < x then hi else x

/-- The rational bias of strength `g`. It maps `[0, 1]` onto itself, fixes
both ends and is the identity at `g = 0`; a positive strength bends the curve
down, a negative one bends it up. -/
@[inline] def rationalBias (g v : α) : α :=
  if 0 ≤ g then v / (g - g * v + 1) else (v - g * v) / (1 - g * v)

/-- A function value with the slope along the curve and the slope in the
strength of the warp. -/
structure BiasPartials (α : Type) where
  value : α
  slope : α
  strengthSlope : α

@[inline] def rationalBiasPartials (g v : α) : BiasPartials α :=
  if 0 ≤ g then
    let den := g - g * v + 1
    let den2 := den * den
    ⟨v / den, (1 + g) / den2, -v * (1 - v) / den2⟩
  else
    let den := 1 - g * v
    let den2 := den * den
    ⟨(v - g * v) / den, (1 - g) / den2, -v * (1 - v) / den2⟩

end InkModel
