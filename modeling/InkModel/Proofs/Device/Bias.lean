import InkModel.Interpolation
import InkModel.Proofs.Exact

/-! # The rational bias in exact arithmetic

On `[0, 1]` the bias of every strength has a positive denominator, stays in
`[0, 1]`, rises, and is differentiable in its argument and in its strength, also
where the strength changes its sign.
-/

namespace InkModel

theorem saturate_mem (x : ℝ) : saturate x ∈ Set.Icc (0 : ℝ) 1 := by
  change (x ⊔ @OfNat.ofNat ℝ 0 Scalar.instOfNat) ⊓ @OfNat.ofNat ℝ 1 Scalar.instOfNat ∈ _
  rw [Scalar.real_zero, Scalar.real_one]
  exact ⟨le_inf (le_sup_right) zero_le_one, inf_le_right⟩

theorem saturate_of_mem {x : ℝ} (h : x ∈ Set.Icc (0 : ℝ) 1) : saturate x = x := by
  change (x ⊔ @OfNat.ofNat ℝ 0 Scalar.instOfNat) ⊓ @OfNat.ofNat ℝ 1 Scalar.instOfNat = x
  rw [Scalar.real_zero, Scalar.real_one, sup_eq_left.mpr h.1, inf_eq_left.mpr h.2]

theorem saturate_mono : Monotone (saturate : ℝ → ℝ) := fun _ _ le =>
  inf_le_inf_right _ (sup_le_sup_right le _)

namespace Bias

/-- Denominator of the bias of strength `g` at `v`. -/
noncomputable def denominator (g v : ℝ) : ℝ := if 0 ≤ g then g - g * v + 1 else 1 - g * v

theorem one_le_denominator (g : ℝ) {v : ℝ} (h : v ∈ Set.Icc (0 : ℝ) 1) :
    1 ≤ denominator g v := by
  unfold denominator
  split
  · have := mul_nonneg ‹0 ≤ g› (sub_nonneg.mpr h.2)
    linarith
  · have := mul_nonneg (neg_nonneg.mpr (not_le.mp ‹_›).le) h.1
    linarith

theorem eq_of_nonneg {g : ℝ} (h : 0 ≤ g) (v : ℝ) : rationalBias g v = v / (g - g * v + 1) := by
  rw [rationalBias, Scalar.real_zero, Scalar.real_one]
  exact if_pos h

theorem eq_of_neg {g : ℝ} (h : g < 0) (v : ℝ) :
    rationalBias g v = (v - g * v) / (1 - g * v) := by
  rw [rationalBias, Scalar.real_zero, Scalar.real_one]
  exact if_neg h.not_ge

theorem slope_of_nonneg {g : ℝ} (h : 0 ≤ g) (v : ℝ) :
    (rationalBiasPartials g v).slope = (1 + g) / (g - g * v + 1) ^ 2 := by
  rw [rationalBiasPartials, Scalar.real_zero, Scalar.real_one, if_pos h, pow_two]

theorem slope_of_neg {g : ℝ} (h : g < 0) (v : ℝ) :
    (rationalBiasPartials g v).slope = (1 - g) / (1 - g * v) ^ 2 := by
  rw [rationalBiasPartials, Scalar.real_zero, Scalar.real_one, if_neg h.not_ge, pow_two]

theorem strengthSlope_eq (g v : ℝ) :
    (rationalBiasPartials g v).strengthSlope = -v * (1 - v) / denominator g v ^ 2 := by
  rw [rationalBiasPartials, Scalar.real_zero, Scalar.real_one, denominator, pow_two]
  split <;> rfl

theorem value_eq (g v : ℝ) : (rationalBiasPartials g v).value = rationalBias g v := by
  rw [rationalBiasPartials, rationalBias]
  split <;> rfl

/-- The bias of the opposite strength is the bias seen from the other end. -/
theorem neg_eq (g : ℝ) {v : ℝ} (h : v ∈ Set.Icc (0 : ℝ) 1) :
    rationalBias (-g) v = 1 - rationalBias g (1 - v) := by
  have mirrored : 1 - v ∈ Set.Icc (0 : ℝ) 1 := ⟨by linarith [h.2], by linarith [h.1]⟩
  rcases lt_trichotomy g 0 with neg | rfl | pos
  · have den := one_le_denominator (-g) h
    rw [denominator, if_pos (neg_nonneg.mpr neg.le)] at den
    rw [eq_of_nonneg (neg_nonneg.mpr neg.le), eq_of_neg neg]
    have same : 1 - g * (1 - v) = -g - -g * v + 1 := by ring
    rw [same, eq_sub_iff_add_eq, ← add_div, div_eq_one_iff_eq (by linarith)]
    ring
  · rw [neg_zero, eq_of_nonneg le_rfl, eq_of_nonneg le_rfl]
    ring
  · have den := one_le_denominator g mirrored
    rw [denominator, if_pos pos.le] at den
    rw [eq_of_neg (neg_neg_iff_pos.mpr pos), eq_of_nonneg pos.le]
    have same : 1 - -g * v = g - g * (1 - v) + 1 := by ring
    rw [same, eq_sub_iff_add_eq, ← add_div, div_eq_one_iff_eq (by linarith)]
    ring

@[simp] theorem at_zero (g : ℝ) : rationalBias g 0 = 0 := by
  rcases le_or_gt 0 g with h | h
  · rw [eq_of_nonneg h, zero_div]
  · rw [eq_of_neg h, mul_zero, sub_zero, zero_div]

@[simp] theorem at_one (g : ℝ) : rationalBias g 1 = 1 := by
  have := neg_eq (-g) (v := 1) ⟨zero_le_one, le_rfl⟩
  simpa using this

theorem strength_zero (v : ℝ) : rationalBias 0 v = v := by
  rw [eq_of_nonneg le_rfl, zero_mul, sub_zero, zero_add, div_one]

theorem mem_unit (g : ℝ) {v : ℝ} (h : v ∈ Set.Icc (0 : ℝ) 1) :
    rationalBias g v ∈ Set.Icc (0 : ℝ) 1 := by
  have of_nonneg {g v : ℝ} (hg : 0 ≤ g) (h : v ∈ Set.Icc (0 : ℝ) 1) :
      rationalBias g v ∈ Set.Icc (0 : ℝ) 1 := by
    have den := one_le_denominator g h
    rw [denominator, if_pos hg] at den
    rw [eq_of_nonneg hg]
    refine ⟨div_nonneg h.1 (by linarith), (div_le_one (by linarith)).mpr ?_⟩
    nlinarith [mul_nonneg hg (sub_nonneg.mpr h.2), h.2]
  rcases le_or_gt 0 g with hg | hg
  · exact of_nonneg hg h
  · have mirrored := of_nonneg (neg_nonneg.mpr hg.le) (v := 1 - v)
      ⟨by linarith [h.2], by linarith [h.1]⟩
    rw [← neg_neg g, neg_eq (-g) h]
    exact ⟨by linarith [mirrored.2], by linarith [mirrored.1]⟩

theorem slope_pos (g : ℝ) {v : ℝ} (h : v ∈ Set.Icc (0 : ℝ) 1) :
    0 < (rationalBiasPartials g v).slope := by
  have den := one_le_denominator g h
  unfold denominator at den
  rcases le_or_gt 0 g with hg | hg
  · rw [if_pos hg] at den
    rw [slope_of_nonneg hg]
    exact div_pos (by linarith) (pow_pos (by linarith) 2)
  · rw [if_neg hg.not_ge] at den
    rw [slope_of_neg hg]
    exact div_pos (by linarith) (pow_pos (by linarith) 2)

/-- The slope at the end of a bias is the slope at the start of the opposite one. -/
theorem slope_neg_at_one (g : ℝ) :
    (rationalBiasPartials (-g) 1).slope = (rationalBiasPartials g 0).slope := by
  rcases lt_trichotomy g 0 with neg | rfl | pos
  · rw [slope_of_nonneg (neg_nonneg.mpr neg.le), slope_of_neg neg]
    ring
  · rw [neg_zero, slope_of_nonneg le_rfl, slope_of_nonneg le_rfl]
    ring
  · rw [slope_of_neg (neg_neg_iff_pos.mpr pos), slope_of_nonneg pos.le]
    have den : g - g * 0 + 1 = 1 - -g * 1 := by ring
    have num : 1 - -g = 1 + g := by ring
    rw [den, num]

theorem hasDerivAt (g : ℝ) {v : ℝ} (h : v ∈ Set.Icc (0 : ℝ) 1) :
    HasDerivAt (rationalBias g) (rationalBiasPartials g v).slope v := by
  have den := one_le_denominator g h
  unfold denominator at den
  have scaled : HasDerivAt (fun v => g * v) g v := by
    simpa using (hasDerivAt_id v).const_mul g
  rcases le_or_gt 0 g with hg | hg
  · rw [if_pos hg] at den
    rw [funext (eq_of_nonneg hg), slope_of_nonneg hg]
    have below := ((scaled.const_sub g).add_const 1)
    refine ((hasDerivAt_id v).div below (by linarith)).congr_deriv ?_
    simp only [id]
    ring
  · rw [if_neg hg.not_ge] at den
    rw [funext (eq_of_neg hg), slope_of_neg hg]
    have below := scaled.const_sub 1
    refine (((hasDerivAt_id v).sub scaled).div below (by linarith)).congr_deriv ?_
    simp only [id, Pi.sub_apply]
    ring

/-- Differentiable functions that meet with one slope make one differentiable
function. -/
theorem hasDerivAt_join {f below above : ℝ → ℝ} {slope a : ℝ}
    (hb : HasDerivAt below slope a) (ha : HasDerivAt above slope a)
    (left : ∀ᶠ x in nhdsWithin a (Set.Iic a), f x = below x)
    (right : ∀ᶠ x in nhdsWithin a (Set.Ici a), f x = above x) : HasDerivAt f slope a := by
  have hl : HasDerivWithinAt f slope (Set.Iic a) a :=
    hb.hasDerivWithinAt.congr_of_eventuallyEq left (left.self_of_nhdsWithin Set.self_mem_Iic)
  have hr : HasDerivWithinAt f slope (Set.Ici a) a :=
    ha.hasDerivWithinAt.congr_of_eventuallyEq right (right.self_of_nhdsWithin Set.self_mem_Ici)
  have both := hl.union hr
  rwa [Set.Iic_union_Ici, hasDerivWithinAt_univ] at both

theorem hasDerivAt_strength (g : ℝ) {v : ℝ} (h : v ∈ Set.Icc (0 : ℝ) 1) :
    HasDerivAt (fun g => rationalBias g v) (rationalBiasPartials g v).strengthSlope g := by
  have den := one_le_denominator g h
  rw [strengthSlope_eq]
  have scaled : HasDerivAt (fun g : ℝ => g * v) v g := by
    simpa using (hasDerivAt_id g).mul_const v
  -- The two formulas, each differentiated where its denominator is positive.
  have above (pos : 1 ≤ g - g * v + 1) : HasDerivAt (fun g => v / (g - g * v + 1))
      (-v * (1 - v) / (g - g * v + 1) ^ 2) g := by
    refine ((hasDerivAt_const g v).div (((hasDerivAt_id g).sub scaled).add_const 1)
      (by simp only [id, Pi.sub_apply]; linarith)).congr_deriv ?_
    simp only [id, Pi.sub_apply]
    ring
  have below (pos : 1 ≤ 1 - g * v) : HasDerivAt (fun g => (v - g * v) / (1 - g * v))
      (-v * (1 - v) / (1 - g * v) ^ 2) g := by
    refine ((scaled.const_sub v).div (scaled.const_sub 1) (by linarith)).congr_deriv ?_
    ring
  unfold denominator at den ⊢
  rcases lt_trichotomy g 0 with neg | rfl | pos
  · rw [if_neg neg.not_ge] at den ⊢
    refine (below den).congr_of_eventuallyEq ?_
    filter_upwards [Iio_mem_nhds neg] with g' hg'
    exact eq_of_neg hg' v
  · rw [if_pos le_rfl] at den ⊢
    refine hasDerivAt_join ((below (by simp)).congr_deriv (by simp)) (above den) ?_ ?_
    · filter_upwards [self_mem_nhdsWithin] with g' hg'
      rcases (Set.mem_Iic.mp hg').lt_or_eq with lt | rfl
      · exact eq_of_neg lt v
      · rw [strength_zero]
        simp
    · filter_upwards [self_mem_nhdsWithin] with g' hg'
      exact eq_of_nonneg hg' v
  · rw [if_pos pos.le] at den ⊢
    refine (above den).congr_of_eventuallyEq ?_
    filter_upwards [Ioi_mem_nhds pos] with g' hg'
    exact eq_of_nonneg (le_of_lt hg') v

end Bias

end InkModel
