import InkModel.Color.Lab
import InkModel.Proofs.Device.Bias

/-! # The lightness curve in exact arithmetic

The toe and the cube root meet at the knee in value and in slope, so the
lightness is differentiable everywhere.
-/

namespace InkModel

theorem lightnessKnee_eq : (lightnessKnee : ℝ) = 216 / 24389 := rfl

theorem lightnessSlope_eq : (lightnessSlope : ℝ) = 24389 / 27 := rfl

namespace Lightness

theorem of_toe {x : ℝ} (h : x ≤ 216 / 24389) : lightness x = 24389 / 27 * x := by
  rw [lightness, if_neg (by rw [lightnessKnee_eq]; exact h.not_gt), lightnessSlope_eq]

theorem of_root {x : ℝ} (h : 216 / 24389 < x) : lightness x = 116 * realCbrt x - 16 := by
  rw [lightness, if_pos (by rw [lightnessKnee_eq]; exact h)]
  rfl

theorem deriv_of_toe {x : ℝ} (h : x ≤ 216 / 24389) : lightnessDeriv x = 24389 / 27 := by
  rw [lightnessDeriv, if_neg (by rw [lightnessKnee_eq]; exact h.not_gt), lightnessSlope_eq]

theorem deriv_of_root {x : ℝ} (h : 216 / 24389 < x) :
    lightnessDeriv x = 116 / (3 * realCbrt x * realCbrt x) := by
  rw [lightnessDeriv, if_pos (by rw [lightnessKnee_eq]; exact h)]
  rfl

theorem realCbrt_knee : realCbrt (216 / 24389) = 6 / 29 := realCbrt_eq_iff.mpr (by norm_num)

theorem realCbrt_pos {x : ℝ} (h : 0 < x) : 0 < realCbrt x := by
  rw [realCbrt, if_pos h.le]
  exact Real.rpow_pos_of_pos h _

theorem hasDerivAt_realCbrt {x : ℝ} (h : 0 < x) :
    HasDerivAt realCbrt (1 / (3 * realCbrt x ^ 2)) x := by
  have root : HasDerivAt (fun x : ℝ => x ^ (3⁻¹ : ℝ)) (3⁻¹ * x ^ (3⁻¹ - 1 : ℝ)) x :=
    Real.hasDerivAt_rpow_const (Or.inl h.ne')
  have near : realCbrt =ᶠ[nhds x] fun x => x ^ (3⁻¹ : ℝ) := by
    filter_upwards [Ioi_mem_nhds h] with y hy
    exact if_pos (le_of_lt hy)
  refine (root.congr_of_eventuallyEq near).congr_deriv ?_
  have pos := realCbrt_pos h
  have cube : x = realCbrt x ^ 3 := (realCbrt_pow_three x).symm
  have value : x ^ (3⁻¹ : ℝ) = realCbrt x := (if_pos h.le).symm
  rw [Real.rpow_sub_one h.ne', value]
  nth_rewrite 2 [cube]
  field_simp

theorem hasDerivAt_root {x : ℝ} (h : 0 < x) :
    HasDerivAt (fun x => 116 * realCbrt x - 16) (116 / (3 * realCbrt x * realCbrt x)) x := by
  refine (((hasDerivAt_realCbrt h).const_mul 116).sub_const 16).congr_deriv ?_
  rw [mul_one_div, pow_two, mul_assoc]

theorem hasDerivAt_toe (x : ℝ) : HasDerivAt (fun x : ℝ => 24389 / 27 * x) (24389 / 27) x := by
  simpa using (hasDerivAt_id x).const_mul (24389 / 27 : ℝ)

theorem hasDerivAt (x : ℝ) : HasDerivAt lightness (lightnessDeriv x) x := by
  rcases lt_trichotomy x (216 / 24389) with toe | rfl | root
  · rw [deriv_of_toe toe.le]
    refine (hasDerivAt_toe x).congr_of_eventuallyEq ?_
    filter_upwards [Iio_mem_nhds toe] with y hy
    exact of_toe (le_of_lt hy)
  · rw [deriv_of_toe le_rfl]
    -- `116 / (3 (6/29)²)` is the slope of the toe, and both values are 8.
    have above := hasDerivAt_root (x := 216 / 24389) (by norm_num)
    have slopes : 116 / (3 * realCbrt (216 / 24389) * realCbrt (216 / 24389)) = 24389 / 27 := by
      rw [realCbrt_knee]
      norm_num
    refine Bias.hasDerivAt_join (hasDerivAt_toe _) (above.congr_deriv slopes) ?_ ?_
    · filter_upwards [self_mem_nhdsWithin] with y hy
      exact of_toe hy
    · filter_upwards [self_mem_nhdsWithin] with y hy
      rcases (Set.mem_Ici.mp hy).lt_or_eq with lt | rfl
      · exact of_root lt
      · rw [of_toe le_rfl, realCbrt_knee]
        norm_num
  · rw [deriv_of_root root]
    refine (hasDerivAt_root (lt_trans (by norm_num) root)).congr_of_eventuallyEq ?_
    filter_upwards [Ioi_mem_nhds root] with y hy
    exact of_root hy

end Lightness

end InkModel
