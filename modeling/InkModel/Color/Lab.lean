import InkModel.Interpolation

/-! # XYZ and Lab

Colours relative to a perfect diffuser of luminance 1, and their Lab
coordinates against the D50 white. The lightness curve has a linear toe below
a knee, where both parts meet with the same slope.
-/

namespace InkModel

open Scalar

structure Xyz (α : Type) where
  /-- X. -/
  x : α
  /-- Y, the luminance. -/
  y : α
  /-- Z. -/
  z : α
  deriving Repr, DecidableEq

structure Lab (α : Type) where
  /-- Lightness. -/
  l : α
  /-- From green to red. -/
  a : α
  /-- From blue to yellow. -/
  b : α
  deriving Repr, DecidableEq

variable {α : Type}

def Xyz.toList (c : Xyz α) : List α := [c.x, c.y, c.z]

def Lab.toList (c : Lab α) : List α := [c.l, c.a, c.b]

variable [Scalar α]

/-- The D50 white. -/
@[inline] def whiteD50 : Xyz α := ⟨0.9642, 1.0, 0.8249⟩

/-- Knee of the lightness curve, `(6/29)³`. -/
@[inline] def lightnessKnee : α := 216 / 24389

/-- Slope of the toe of the lightness curve, `(29/3)³`. -/
@[inline] def lightnessSlope : α := 24389 / 27

@[inline] def labCurve (t : α) : α :=
  if lightnessKnee < t then Scalar.cbrt t else (lightnessSlope * t + 16) / 116

/-- The inverse of the curve behind all three coordinates. -/
@[inline] def labCurveInverse (f : α) : α :=
  let t := f * f * f
  if lightnessKnee < t then t else (116 * f - 16) / lightnessSlope

@[specialize] def Xyz.toLab (c : Xyz α) : Lab α :=
  let fx := labCurve (c.x / whiteD50.x)
  let fy := labCurve (c.y / whiteD50.y)
  let fz := labCurve (c.z / whiteD50.z)
  ⟨116 * fy - 16, 500 * (fx - fy), 200 * (fy - fz)⟩

@[specialize] def Lab.toXyz (c : Lab α) : Xyz α :=
  let fy := (c.l + 16) / 116
  let fx := fy + c.a / 500
  let fz := fy - c.b / 200
  let y := if lightnessSlope * lightnessKnee < c.l then fy * fy * fy else c.l / lightnessSlope
  ⟨whiteD50.x * labCurveInverse fx, whiteD50.y * y, whiteD50.z * labCurveInverse fz⟩

/-- Difference of two colours: their distance in Lab. -/
@[specialize] def Lab.distance (p q : Lab α) : α :=
  Scalar.sqrt (sq (p.l - q.l) + sq (p.a - q.a) + sq (p.b - q.b))

/-- Distance of `p` from the line through `a` and `b`; from `a` when these are
the same point. -/
@[specialize] def Lab.distanceFromLine (p a b : Lab α) : α :=
  let d : Lab α := ⟨b.l - a.l, b.a - a.a, b.b - a.b⟩
  let len2 := sq d.l + sq d.a + sq d.b
  if len2 < 1e-12 then p.distance a
  else
    let t := ((p.l - a.l) * d.l + (p.a - a.a) * d.a + (p.b - a.b) * d.b) / len2
    p.distance ⟨a.l + d.l * t, a.a + d.a * t, a.b + d.b * t⟩

/-- The lightness of a band value: the lightness formula on any band. Negative
values extend the toe. -/
@[inline] def lightness (x : α) : α :=
  if lightnessKnee < x then 116 * Scalar.cbrt x - 16 else lightnessSlope * x

@[inline] def lightnessDeriv (x : α) : α :=
  if lightnessKnee < x then
    let c := Scalar.cbrt x
    116 / (3 * c * c)
  else lightnessSlope

@[inline] def lightnessInverse (l : α) : α :=
  if lightnessSlope * lightnessKnee < l then
    let f := (l + 16) / 116
    f * f * f
  else l / lightnessSlope

end InkModel
