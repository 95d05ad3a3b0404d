import InkModel.Proofs.Device.Bias
import InkModel.Proofs.Extended

/-! # The rational bias as a family of warps

A bias of fixed strength rises from 0 to 1 and takes every value in between once, and the bias of
the opposite strength leads back. At a fixed place inside the unit interval a stronger bias has a
smaller value. No division on the way is by zero, so with the rules of doubles for such a division
the values and the slopes are the same finite numbers.
-/

namespace InkModel

/-- A warp of the unit interval: it rises, fixes both ends and is undone by its inverse. -/
structure IsWarp (warp inverse : ℝ → ℝ) : Prop where
  rises : StrictMonoOn warp (Set.Icc 0 1)
  onto : Set.BijOn warp (Set.Icc 0 1) (Set.Icc 0 1)
  zero : warp 0 = 0
  one : warp 1 = 1
  undone : Set.InvOn inverse warp (Set.Icc 0 1) (Set.Icc 0 1)

def BiasPartials.map {α β : Type} (f : α → β) (p : BiasPartials α) : BiasPartials β :=
  ⟨f p.value, f p.slope, f p.strengthSlope⟩

namespace Bias

/-! A bias and the one of the opposite strength. -/

section Inverse

theorem mirrored_mem {v : ℝ} (h : v ∈ Set.Icc (0 : ℝ) 1) : 1 - v ∈ Set.Icc (0 : ℝ) 1 :=
  ⟨sub_nonneg.mpr h.2, sub_le_self 1 h.1⟩

theorem strictMonoOn (g : ℝ) : StrictMonoOn (rationalBias g) (Set.Icc 0 1) := by
  apply strictMonoOn_of_deriv_pos (convex_Icc 0 1)
  · intro v inside
    exact (hasDerivAt g inside).continuousAt.continuousWithinAt
  · intro v inside
    have closed := interior_subset inside
    rw [(hasDerivAt g closed).deriv]
    exact slope_pos g closed

theorem neg_bias_of_nonneg {g v : ℝ} (hg : 0 ≤ g) (h : v ∈ Set.Icc (0 : ℝ) 1) :
    rationalBias (-g) (rationalBias g v) = v := by
  rcases hg.eq_or_lt with rfl | pos
  · rw [neg_zero, strength_zero, strength_zero]
  · have den := one_le_denominator g h
    rw [denominator, if_pos hg] at den
    have value := eq_of_nonneg hg v
    have inside := mem_unit g h
    have cleared : rationalBias g v * (g - g * v + 1) = v := by
      rw [value]
      exact div_mul_cancel₀ v (by linarith)
    have outer : 0 < 1 - -g * rationalBias g v := by
      have := mul_nonneg hg inside.1
      linarith
    rw [eq_of_neg (neg_neg_iff_pos.mpr pos), div_eq_iff outer.ne']
    linarith

theorem neg_bias (g : ℝ) {v : ℝ} (h : v ∈ Set.Icc (0 : ℝ) 1) :
    rationalBias (-g) (rationalBias g v) = v := by
  rcases le_or_gt 0 g with hg | hg
  · exact neg_bias_of_nonneg hg h
  · -- Seen from the other end, the two strengths change places.
    have mirror : 1 - rationalBias g v = rationalBias (-g) (1 - v) := by
      rw [neg_eq g (mirrored_mem h), sub_sub_cancel]
    have undone := neg_bias_of_nonneg (neg_nonneg.mpr hg.le) (mirrored_mem h)
    rw [neg_neg] at undone
    rw [neg_eq g (mem_unit g h), mirror, undone, sub_sub_cancel]

theorem invOn (g : ℝ) :
    Set.InvOn (rationalBias (-g)) (rationalBias g) (Set.Icc 0 1) (Set.Icc 0 1) := by
  constructor
  · intro v inside
    exact neg_bias g inside
  · intro v inside
    have back := neg_bias (-g) inside
    rwa [neg_neg] at back

theorem isWarp (g : ℝ) : IsWarp (rationalBias g) (rationalBias (-g)) where
  rises := strictMonoOn g
  onto := (invOn g).bijOn (fun _ => mem_unit g) (fun _ => mem_unit (-g))
  zero := at_zero g
  one := at_one g
  undone := invOn g

end Inverse

/-- A stronger bias bends the curve further down. -/
theorem strictAnti {v : ℝ} (h : v ∈ Set.Ioo (0 : ℝ) 1) : StrictAnti fun g => rationalBias g v := by
  apply strictAnti_of_deriv_neg
  intro g
  have closed := Set.Ioo_subset_Icc_self h
  have den := one_le_denominator g closed
  rw [(hasDerivAt_strength g closed).deriv, strengthSlope_eq]
  apply div_neg_of_neg_of_pos
  · have := mul_pos h.1 (sub_pos.mpr h.2)
    linarith
  · exact pow_pos (zero_lt_one.trans_le den) 2

/-! Divisions. -/

section Divisions

open Extended

theorem denominator_ne_zero (g : ℝ) {v : ℝ} (h : v ∈ Set.Icc (0 : ℝ) 1) : denominator g v ≠ 0 :=
  (zero_lt_one.trans_le (one_le_denominator g h)).ne'

theorem partials_real (g : ℝ) {v : ℝ} (h : v ∈ Set.Icc (0 : ℝ) 1) :
    rationalBiasPartials (real g) (real v) = (rationalBiasPartials g v).map real := by
  have den := denominator_ne_zero g h
  unfold denominator at den
  rw [rationalBiasPartials, rationalBiasPartials, zero_eq, one_eq, Scalar.real_zero,
    Scalar.real_one]
  by_cases hg : 0 ≤ g
  · rw [if_pos hg] at den
    rw [if_pos (real_le_real.mpr hg), if_pos hg]
    simp only [real_mul, real_sub, real_add, real_neg, real_div _ den,
      real_div _ (mul_self_ne_zero.mpr den), BiasPartials.map]
  · rw [if_neg hg] at den
    rw [if_neg (mt real_le_real.mp hg), if_neg hg]
    simp only [real_mul, real_sub, real_neg, real_div _ den,
      real_div _ (mul_self_ne_zero.mpr den), BiasPartials.map]

theorem value_real (g : ℝ) {v : ℝ} (h : v ∈ Set.Icc (0 : ℝ) 1) :
    rationalBias (real g) (real v) = real (rationalBias g v) := by
  have same : (rationalBiasPartials (real g) (real v)).value = rationalBias (real g) (real v) := by
    rw [rationalBiasPartials, rationalBias]
    split <;> rfl
  rw [← same, partials_real g h, BiasPartials.map, value_eq]

end Divisions

end Bias

/-- The biases are warps of the unit interval, each undone by the one of the opposite strength, with
smaller values for greater strengths, and their partials are the true ones for every strength. -/
theorem rationalBias_warps (g : ℝ) :
    IsWarp (rationalBias g) (rationalBias (-g)) ∧
      (∀ v ∈ Set.Ioo (0 : ℝ) 1, StrictAnti fun g => rationalBias g v) ∧
      (∀ v ∈ Set.Icc (0 : ℝ) 1,
        Bias.denominator g v ≠ 0 ∧
        rationalBias (Extended.real g) (.real v) = .real (rationalBias g v) ∧
        rationalBiasPartials (Extended.real g) (.real v) = (rationalBiasPartials g v).map .real ∧
        (rationalBiasPartials g v).value = rationalBias g v ∧
        HasDerivAt (rationalBias g) (rationalBiasPartials g v).slope v ∧
        HasDerivAt (fun g => rationalBias g v) (rationalBiasPartials g v).strengthSlope g) ∧
      (rationalBiasPartials g 1).slope = (rationalBiasPartials (-g) 0).slope := by
  refine ⟨Bias.isWarp g, fun v inside => Bias.strictAnti inside, fun v inside => ?_, ?_⟩
  · exact ⟨Bias.denominator_ne_zero g inside, Bias.value_real g inside, Bias.partials_real g inside,
      Bias.value_eq g v, Bias.hasDerivAt g inside, Bias.hasDerivAt_strength g inside⟩
  · rw [← Bias.slope_neg_at_one, neg_neg]

/-- At one half, on both sides of the strength where the formulas change. -/
theorem rationalBias_warps_half :
    (1 / 2 : ℝ) ∈ Set.Ioo (0 : ℝ) 1 ∧
      rationalBias 2 (rationalBias (-2) (1 / 2 : ℝ)) = 1 / 2 ∧
      rationalBias 2 (1 / 2 : ℝ) < rationalBias (-2) (1 / 2) ∧
      rationalBias (Extended.real (-2)) (.real (1 / 2)) = .real (3 / 4) ∧
      HasDerivAt (fun g : ℝ => rationalBias g (1 / 2)) (-1 / 4) 0 := by
  have inside : (1 / 2 : ℝ) ∈ Set.Ioo (0 : ℝ) 1 := by norm_num
  have closed := Set.Ioo_subset_Icc_self inside
  obtain ⟨warp, falls, partials, -⟩ := rationalBias_warps (-2)
  obtain ⟨-, -, still, -⟩ := rationalBias_warps 0
  refine ⟨inside, ?_, falls _ inside (by norm_num), ?_, ?_⟩
  · have back := warp.undone.1 closed
    rwa [neg_neg] at back
  · rw [(partials _ closed).2.1, Bias.eq_of_neg (by norm_num)]
    norm_num
  · refine (still _ closed).2.2.2.2.2.congr_deriv ?_
    rw [Bias.strengthSlope_eq, Bias.denominator, if_pos le_rfl]
    norm_num

end InkModel
