import InkModel.Proofs.Color.Lightness

/-! # Lab coordinates in exact arithmetic

The curve behind the coordinates has one inverse on the whole line: the toe goes
to values up to `6/29`, the root to values above. So the coordinates are found back from the colour
and the colour from the coordinates, and each value is on the same side of the knee in both, though
the two directions tell the sides from different quantities. The lightness of a band is a coordinate
of the same curve: it rises on the whole line and has the same inverse.
-/

namespace InkModel

namespace LabCurve

theorem of_toe {t : ℝ} (h : t ≤ 216 / 24389) : labCurve t = (24389 / 27 * t + 16) / 116 := by
  rw [labCurve, if_neg (by rw [lightnessKnee_eq]; exact h.not_gt), lightnessSlope_eq]

theorem of_root {t : ℝ} (h : 216 / 24389 < t) : labCurve t = realCbrt t := by
  rw [labCurve, if_pos (by rw [lightnessKnee_eq]; exact h)]
  rfl

/-- The toe stays below the value at the knee. -/
theorem le_of_toe {t : ℝ} (h : t ≤ 216 / 24389) : labCurve t ≤ 6 / 29 := by
  rw [of_toe h]
  linarith

theorem lt_of_root {t : ℝ} (h : 216 / 24389 < t) : 6 / 29 < labCurve t := by
  have odd : Odd 3 := by decide
  rw [of_root h, ← odd.strictMono_pow.lt_iff_lt, realCbrt_pow_three]
  norm_num
  exact h

theorem cube_le_iff (f : ℝ) : f * f * f ≤ 216 / 24389 ↔ f ≤ 6 / 29 := by
  have odd : Odd 3 := by decide
  have cube : f * f * f = f ^ 3 := by ring
  have knee : (216 / 24389 : ℝ) = (6 / 29) ^ 3 := by norm_num
  rw [cube, knee, odd.strictMono_pow.le_iff_le]

theorem inverse_of_toe {f : ℝ} (h : f ≤ 6 / 29) :
    labCurveInverse f = (116 * f - 16) / (24389 / 27) := by
  have below : ¬lightnessKnee < f * f * f := by
    rw [lightnessKnee_eq, not_lt, cube_le_iff]
    exact h
  rw [labCurveInverse, if_neg below, lightnessSlope_eq]

theorem inverse_of_root {f : ℝ} (h : 6 / 29 < f) : labCurveInverse f = f * f * f := by
  have above : lightnessKnee < f * f * f := by
    rw [lightnessKnee_eq, ← not_le, cube_le_iff, not_le]
    exact h
  rw [labCurveInverse, if_pos above]

theorem inverse_labCurve (t : ℝ) : labCurveInverse (labCurve t) = t := by
  rcases le_or_gt t (216 / 24389) with toe | root
  · rw [inverse_of_toe (le_of_toe toe), of_toe toe]
    ring
  · rw [inverse_of_root (lt_of_root root), of_root root]
    calc realCbrt t * realCbrt t * realCbrt t = realCbrt t ^ 3 := by ring
      _ = t := realCbrt_pow_three t

theorem labCurve_inverse (f : ℝ) : labCurve (labCurveInverse f) = f := by
  rcases le_or_gt f (6 / 29) with toe | root
  · have below : (116 * f - 16) / (24389 / 27) ≤ 216 / 24389 := by linarith
    rw [inverse_of_toe toe, of_toe below]
    ring
  · have above : 216 / 24389 < f * f * f := by
      rw [← not_le, cube_le_iff, not_le]
      exact root
    rw [inverse_of_root root, of_root above, realCbrt_eq_iff]
    ring

/-- The cube of a value tells the side of the knee that it comes from. -/
theorem knee_lt_cube_iff (t : ℝ) :
    lightnessKnee < labCurve t * labCurve t * labCurve t ↔ lightnessKnee < t := by
  rw [lightnessKnee_eq, ← not_le, cube_le_iff, not_le]
  refine ⟨fun root => ?_, lt_of_root⟩
  by_contra toe
  exact absurd (le_of_toe (not_lt.mp toe)) (not_le.mpr root)

end LabCurve

/-! The luminance alone is decoded from the lightness, with a test of its own. -/

section Luminance

theorem slope_mul_knee : (lightnessSlope * lightnessKnee : ℝ) = 8 := by
  rw [lightnessSlope_eq, lightnessKnee_eq]
  norm_num

/-- The lightness is above 8 where its cube is above the knee. -/
theorem lightness_test_iff (l : ℝ) :
    lightnessSlope * lightnessKnee < l ↔
      lightnessKnee < (l + 16) / 116 * ((l + 16) / 116) * ((l + 16) / 116) := by
  rw [slope_mul_knee, lightnessKnee_eq, ← not_le, ← not_le, LabCurve.cube_le_iff, not_iff_not]
  constructor <;> intro h <;> linarith

theorem luminance_eq (l : ℝ) :
    (if lightnessSlope * lightnessKnee < l then
      (l + 16) / 116 * ((l + 16) / 116) * ((l + 16) / 116) else l / lightnessSlope) =
        labCurveInverse ((l + 16) / 116) := by
  have toe : l = 116 * ((l + 16) / 116) - 16 := by ring
  by_cases root : lightnessSlope * lightnessKnee < l
  · rw [if_pos root, labCurveInverse, if_pos ((lightness_test_iff l).mp root)]
  · rw [if_neg root, labCurveInverse, if_neg (mt (lightness_test_iff l).mpr root)]
    exact congrArg (· / lightnessSlope) toe

end Luminance

/-! The lightness of a band value is a coordinate of the curve. -/

namespace Lightness

theorem eq_labCurve (x : ℝ) : lightness x = 116 * labCurve x - 16 := by
  rcases le_or_gt x (216 / 24389) with toe | root
  · rw [of_toe toe, LabCurve.of_toe toe]
    ring
  · rw [of_root root, LabCurve.of_root root]

theorem inverse_eq (l : ℝ) : lightnessInverse l = labCurveInverse ((l + 16) / 116) :=
  luminance_eq l

theorem inverse_lightness (x : ℝ) : lightnessInverse (lightness x) = x := by
  have curved : (116 * labCurve x - 16 + 16) / 116 = labCurve x := by ring
  rw [inverse_eq, eq_labCurve, curved, LabCurve.inverse_labCurve]

theorem lightness_inverse (l : ℝ) : lightness (lightnessInverse l) = l := by
  rw [inverse_eq, eq_labCurve, LabCurve.labCurve_inverse]
  ring

theorem deriv_pos (x : ℝ) : 0 < lightnessDeriv x := by
  rcases le_or_gt x (216 / 24389) with toe | root
  · rw [deriv_of_toe toe]
    norm_num
  · have positive := realCbrt_pos (lt_trans (by norm_num) root)
    rw [deriv_of_root root]
    positivity

theorem strictMono : StrictMono (lightness : ℝ → ℝ) := by
  apply strictMono_of_deriv_pos
  intro x
  rw [(hasDerivAt x).deriv]
  exact deriv_pos x

theorem toLab_l (c : Xyz ℝ) : c.toLab.l = lightness c.y := by
  have white : (whiteD50 : Xyz ℝ).y = 1 := by
    change (1.0 : ℝ) = 1
    norm_num
  have coordinate : c.toLab.l = 116 * labCurve (c.y / whiteD50.y) - 16 := rfl
  rw [coordinate, white, div_one, eq_labCurve]

end Lightness

/-- The lightness rises on the whole line, its inverse undoes it and is undone by it, its slope is
the true one also at the knee, and it is the lightness of every colour with that luminance. -/
theorem lightness_fits_inverse_deriv :
    StrictMono (lightness : ℝ → ℝ) ∧
      (∀ x : ℝ, lightnessInverse (lightness x) = x) ∧
      (∀ l : ℝ, lightness (lightnessInverse l) = l) ∧
      (∀ x : ℝ, HasDerivAt lightness (lightnessDeriv x) x) ∧
      ∀ x y z : ℝ, lightness y = (Xyz.toLab ⟨x, y, z⟩).l :=
  ⟨Lightness.strictMono, Lightness.inverse_lightness, Lightness.lightness_inverse,
    Lightness.hasDerivAt, fun x y z => (Lightness.toLab_l ⟨x, y, z⟩).symm⟩

/-! Both directions. -/

theorem whiteD50_pos :
    0 < (whiteD50 : Xyz ℝ).x ∧ 0 < (whiteD50 : Xyz ℝ).y ∧ 0 < (whiteD50 : Xyz ℝ).z := by
  change (0 : ℝ) < 0.9642 ∧ (0 : ℝ) < 1.0 ∧ (0 : ℝ) < 0.8249
  norm_num

namespace Lab

/-- The values of the curve that the coordinates come from. -/
noncomputable def curved (w : Lab ℝ) : Xyz ℝ :=
  ⟨(w.l + 16) / 116 + w.a / 500, (w.l + 16) / 116, (w.l + 16) / 116 - w.b / 200⟩

theorem toXyz_eq (w : Lab ℝ) :
    w.toXyz = ⟨whiteD50.x * labCurveInverse w.curved.x, whiteD50.y * labCurveInverse w.curved.y,
      whiteD50.z * labCurveInverse w.curved.z⟩ := by
  simp only [curved, ← luminance_eq]
  rfl

theorem curved_toLab (c : Xyz ℝ) :
    c.toLab.curved = ⟨labCurve (c.x / whiteD50.x), labCurve (c.y / whiteD50.y),
      labCurve (c.z / whiteD50.z)⟩ := by
  set fx := labCurve (c.x / whiteD50.x) with hx
  set fy := labCurve (c.y / whiteD50.y) with hy
  set fz := labCurve (c.z / whiteD50.z) with hz
  have lab : c.toLab = ⟨116 * fy - 16, 500 * (fx - fy), 200 * (fy - fz)⟩ := rfl
  rw [lab, curved, Xyz.mk.injEq]
  refine ⟨?_, ?_, ?_⟩ <;> ring

theorem toLab_toXyz (w : Lab ℝ) : w.toXyz.toLab = w := by
  obtain ⟨x, y, z⟩ := whiteD50_pos
  have lab : w.toXyz.toLab = ⟨116 * w.curved.y - 16, 500 * (w.curved.x - w.curved.y),
      200 * (w.curved.y - w.curved.z)⟩ := by
    have curves (v : Xyz ℝ) : v.toLab = ⟨116 * labCurve (v.y / whiteD50.y) - 16,
        500 * (labCurve (v.x / whiteD50.x) - labCurve (v.y / whiteD50.y)),
        200 * (labCurve (v.y / whiteD50.y) - labCurve (v.z / whiteD50.z))⟩ := rfl
    simp only [curves, toXyz_eq, mul_div_cancel_left₀ _ x.ne', mul_div_cancel_left₀ _ y.ne',
      mul_div_cancel_left₀ _ z.ne', LabCurve.labCurve_inverse]
  obtain ⟨l, a, b⟩ := w
  rw [lab, curved, Lab.mk.injEq]
  refine ⟨?_, ?_, ?_⟩ <;> ring

end Lab

theorem Xyz.toXyz_toLab (c : Xyz ℝ) : c.toLab.toXyz = c := by
  obtain ⟨x, y, z⟩ := whiteD50_pos
  simp only [Lab.toXyz_eq, Lab.curved_toLab, LabCurve.inverse_labCurve,
    mul_div_cancel₀ _ x.ne', mul_div_cancel₀ _ y.ne', mul_div_cancel₀ _ z.ne']

/-! The sides of the knee. -/

section Sides

/-- The coordinates that lie on the root of the curve and not on its toe. -/
structure Sides where
  /-- For X. -/
  x : Bool
  /-- For Y. -/
  y : Bool
  /-- For Z. -/
  z : Bool
  deriving Repr, DecidableEq

variable {α : Type} [Scalar α]

/-- The value of the curve on a given side of the knee. -/
def labCurveOn (root : Bool) (t : α) : α :=
  if root then Scalar.cbrt t else (lightnessSlope * t + 16) / 116

/-- The inverse of the curve on a given side of the knee. -/
def labCurveInverseOn (root : Bool) (f : α) : α :=
  if root then f * f * f else (116 * f - 16) / lightnessSlope

/-- The sides of a colour, by its values. -/
def Xyz.sides (c : Xyz α) : Sides :=
  ⟨decide (lightnessKnee < c.x / whiteD50.x), decide (lightnessKnee < c.y / whiteD50.y),
    decide (lightnessKnee < c.z / whiteD50.z)⟩

/-- The sides of a colour, by its coordinates: two cubes and the lightness. -/
def Lab.sides (w : Lab α) : Sides :=
  let fy := (w.l + 16) / 116
  let fx := fy + w.a / 500
  let fz := fy - w.b / 200
  ⟨decide (lightnessKnee < fx * fx * fx), decide (lightnessSlope * lightnessKnee < w.l),
    decide (lightnessKnee < fz * fz * fz)⟩

/-- The coordinates of a colour on given sides. -/
def Xyz.toLabOn (on : Sides) (c : Xyz α) : Lab α :=
  let fx := labCurveOn on.x (c.x / whiteD50.x)
  let fy := labCurveOn on.y (c.y / whiteD50.y)
  let fz := labCurveOn on.z (c.z / whiteD50.z)
  ⟨116 * fy - 16, 500 * (fx - fy), 200 * (fy - fz)⟩

/-- The colour of coordinates on given sides. -/
def Lab.toXyzOn (on : Sides) (w : Lab α) : Xyz α :=
  let fy := (w.l + 16) / 116
  let fx := fy + w.a / 500
  let fz := fy - w.b / 200
  let y := if on.y then fy * fy * fy else w.l / lightnessSlope
  ⟨whiteD50.x * labCurveInverseOn on.x fx, whiteD50.y * y, whiteD50.z * labCurveInverseOn on.z fz⟩

theorem Xyz.toLab_eq_toLabOn (c : Xyz α) : c.toLab = c.toLabOn c.sides := by
  simp only [toLab, toLabOn, sides, labCurve, labCurveOn, decide_eq_true_eq]

theorem Lab.toXyz_eq_toXyzOn (w : Lab α) : w.toXyz = w.toXyzOn w.sides := by
  simp only [toXyz, toXyzOn, sides, labCurveInverse, labCurveInverseOn, decide_eq_true_eq]

theorem Xyz.sides_toLab (c : Xyz ℝ) : c.toLab.sides = c.sides := by
  have cubes (w : Lab ℝ) : w.sides =
      ⟨decide (lightnessKnee < w.curved.x * w.curved.x * w.curved.x),
        decide (lightnessKnee < w.curved.y * w.curved.y * w.curved.y),
        decide (lightnessKnee < w.curved.z * w.curved.z * w.curved.z)⟩ := by
    simp only [Lab.curved, ← lightness_test_iff]
    rfl
  simp only [cubes, Lab.curved_toLab, LabCurve.knee_lt_cube_iff, sides]

end Sides

/-- Coordinates hold a colour without loss, and a colour its coordinates. Either direction takes for
each coordinate the side of the knee that the other took. -/
theorem lab_lossless (c : Xyz ℝ) (w : Lab ℝ) :
    c.toLab.toXyz = c ∧ w.toXyz.toLab = w ∧
      c.toLab = c.toLabOn c.sides ∧ c.toLab.toXyz = c.toLab.toXyzOn c.sides ∧
      w.toXyz = w.toXyzOn w.sides ∧ w.toXyz.toLab = w.toXyz.toLabOn w.sides ∧
      c.toLab.sides = c.sides ∧ w.toXyz.sides = w.sides := by
  have back : w.toXyz.sides = w.sides := by rw [← w.toXyz.sides_toLab, w.toLab_toXyz]
  refine ⟨c.toXyz_toLab, w.toLab_toXyz, c.toLab_eq_toLabOn, ?_, w.toXyz_eq_toXyzOn, ?_,
    c.sides_toLab, back⟩
  · rw [← c.sides_toLab]
    exact c.toLab.toXyz_eq_toXyzOn
  · rw [← back]
    exact w.toXyz.toLab_eq_toLabOn

end InkModel
