import InkModel.Proofs.Device.Corners

/-! # Monotonicity of the forward model

Every warp has a positive slope, so a transfer curve is strictly increasing on the whole line and
takes `[0, 1]` onto itself. Without ink interaction a band value then falls along a channel when
every primary with the channel is at most the one without.
-/

namespace InkModel

open Finset

/-! Transfer curves. -/

theorem transfer_strictMono (cs : List ℝ) : StrictMono (transfer cs) :=
  strictMono_of_hasDerivAt_pos (hasDerivAt_transferFrom 0 cs) (curveSlope_pos 0 cs)

theorem transfer_bijOn_unit (cs : List ℝ) :
    Set.BijOn (transfer cs) (Set.Icc 0 1) (Set.Icc 0 1) := by
  obtain ⟨start, stop⟩ := transferFrom_ends 0 cs
  have continuous : ContinuousOn (transfer cs) (Set.Icc 0 1) :=
    fun x _ => (hasDerivAt_transferFrom 0 cs x).continuousAt.continuousWithinAt
  have onto := intermediate_value_Icc zero_le_one continuous
  rw [show transfer cs 0 = 0 from start, show transfer cs 1 = 1 from stop] at onto
  exact ⟨fun x h => transfer_mem_unit cs h, (transfer_strictMono cs).injective.injOn, onto⟩

/-- A transfer curve is a strictly increasing bijection of `[0, 1]` that fixes both ends, and the
computed slope is its derivative, at the ends of sections too. -/
theorem transfer_increasing_onto_unit (cs : List ℝ) :
    transfer cs 0 = 0 ∧ transfer cs 1 = 1 ∧
      Set.BijOn (transfer cs) (Set.Icc 0 1) (Set.Icc 0 1) ∧
      StrictMonoOn (transfer cs) (Set.Icc 0 1) ∧
      ∀ (table : Array ℝ), ∀ x ∈ Set.Ioo (0 : ℝ) 1,
        (transferPartialsOver table cs x).value = transfer cs x ∧
        0 < (transferPartialsOver table cs x).slope ∧
        HasDerivAt (transfer cs) (transferPartialsOver table cs x).slope x := by
  obtain ⟨start, stop⟩ := transferFrom_ends 0 cs
  refine ⟨start, stop, transfer_bijOn_unit cs, (transfer_strictMono cs).strictMonoOn _, ?_⟩
  intro table x _
  rw [transferPartialsOver_slope]
  exact ⟨TransferPartials.from_value 0 cs _, curveSlope_pos 0 cs x,
    hasDerivAt_transferFrom 0 cs x⟩

/-- Half is the end of a section of the second harmonic. -/
theorem transfer_increasing_onto_unit_half :
    StrictMonoOn (transfer [-1.6, 0.7]) (Set.Icc (0 : ℝ) 1) ∧
      0 < (transferPartialsOver #[0, 0] [-1.6, 0.7] (1 / 2 : ℝ)).slope ∧
      HasDerivAt (transfer [-1.6, 0.7])
        (transferPartialsOver #[0, 0] [-1.6, 0.7] (1 / 2 : ℝ)).slope (1 / 2) := by
  obtain ⟨-, -, -, increasing, slopes⟩ := transfer_increasing_onto_unit [-1.6, 0.7]
  have half : (1 / 2 : ℝ) ∈ Set.Ioo (0 : ℝ) 1 := by norm_num
  exact ⟨increasing, (slopes #[0, 0] (1 / 2) half).2⟩

/-! Band values. -/

theorem exists_cornerWeight_pos (n : ℕ) {x : ℕ → ℝ} :
    ∃ comb ∈ range (2 ^ n), 0 < cornerWeight ((List.range n).map x) comb := by
  refine exists_lt_of_sum_lt (f := fun _ => (0 : ℝ)) ?_
  rw [sum_cornerWeight, sum_const_zero]
  exact one_pos

/-- A straight line from `p` down to `q` falls. -/
theorem line_le {p q t t' : ℝ} (down : q ≤ p) (more : t ≤ t') :
    p * (1 - t') + q * t' ≤ p * (1 - t) + q * t := by
  have drop : 0 ≤ (p - q) * (t' - t) := mul_nonneg (sub_nonneg.mpr down) (sub_nonneg.mpr more)
  linarith

theorem line_lt {p q t t' : ℝ} (down : q < p) (more : t < t') :
    p * (1 - t') + q * t' < p * (1 - t) + q * t := by
  have drop : 0 < (p - q) * (t' - t) := mul_pos (sub_pos.mpr down) (sub_pos.mpr more)
  linarith

/-- Primaries that do not rise when channel `k` is added. -/
def Band.FallsAlong (b : Band ℝ) (l : Layout) (k : ℕ) : Prop :=
  ∀ c < l.combinations, c.testBit k = false →
    b.primaries.getD (c ||| 1 <<< k) 0 ≤ b.primaries.getD c 0

/-- Primaries that fall whenever channel `k` is added. -/
def Band.StrictlyFallsAlong (b : Band ℝ) (l : Layout) (k : ℕ) : Prop :=
  ∀ c < l.combinations, c.testBit k = false →
    b.primaries.getD (c ||| 1 <<< k) 0 < b.primaries.getD c 0

theorem Band.StrictlyFallsAlong.falls {b : Band ℝ} {l : Layout} {k : ℕ}
    (h : b.StrictlyFallsAlong l k) : b.FallsAlong l k :=
  fun c inside clear => (h c inside clear).le

section Band

variable {l : Layout} (plain : l.shaped = false) {b : Band ℝ} (fits : b.Fits l) {k : ℕ}
  (hk : k < l.channels)

include plain fits hk

/-- Without ink interaction a band value is a blend of straight lines along one channel. -/
theorem evaluate_along (dev : Array ℝ) : evaluate l b dev =
    ∑ slot ∈ range (2 ^ (l.channels - 1)),
      (b.primaries.getD (slotComb k slot) 0 * ((1 : ℝ) - curveValue l b dev k) +
          b.primaries.getD (slotComb k slot ||| 1 <<< k) 0 * curveValue l b dev k) *
        cornerWeight (otherValues l.channels k (curveValue l b dev)) slot := by
  have size : b.primaries.size = 2 ^ l.channels := fits.2.2
  have values : warpedValues l b (curveValue l b dev) =
      (List.range l.channels).map (curveValue l b dev) := by
    simp [warpedValues, channelWarp, plain]
  rw [evaluate_eq, response, values, blend_eq_sum, size]
  exact sum_mul_cornerWeight hk _ _

variable {dev dev' : Array ℝ}
  (others : ∀ j < l.channels, j ≠ k → dev.getD j 0 = dev'.getD j 0)

include others

/-- The lines of two device vectors that differ in channel `k` only have the same weights. -/
theorem evaluate_along_other : evaluate l b dev' =
    ∑ slot ∈ range (2 ^ (l.channels - 1)),
      (b.primaries.getD (slotComb k slot) 0 * ((1 : ℝ) - curveValue l b dev' k) +
          b.primaries.getD (slotComb k slot ||| 1 <<< k) 0 * curveValue l b dev' k) *
        cornerWeight (otherValues l.channels k (curveValue l b dev)) slot := by
  have same (j : ℕ) (hj : j < l.channels) (ne : j ≠ k) :
      curveValue l b dev j = curveValue l b dev' j := by
    rw [curveValue, curveValue, channelValue, channelValue, Scalar.real_zero, others j hj ne]
  rw [otherValues_congr same]
  exact evaluate_along plain fits hk dev'

theorem evaluate_le_of_falls (falls : b.FallsAlong l k)
    (more : channelValue dev k ≤ channelValue dev' k) :
    evaluate l b dev' ≤ evaluate l b dev := by
  have curve : curveValue l b dev k ≤ curveValue l b dev' k :=
    (transfer_strictMono _).monotone more
  rw [evaluate_along plain fits hk dev, evaluate_along_other plain fits hk others]
  refine sum_le_sum fun slot mem => ?_
  have inside : slotComb k slot < l.combinations := slotComb_lt hk (mem_range.mp mem)
  exact mul_le_mul_of_nonneg_right
    (line_le (falls _ inside (testBit_slotComb_self k slot)) curve)
    (cornerWeight_nonneg _ (fun _ => curveValue_mem_unit l b dev _) slot)

theorem evaluate_lt_of_falls (falls : b.StrictlyFallsAlong l k)
    (more : channelValue dev k < channelValue dev' k) :
    evaluate l b dev' < evaluate l b dev := by
  have curve : curveValue l b dev k < curveValue l b dev' k := transfer_strictMono _ more
  have line {slot : ℕ} (mem : slot ∈ range (2 ^ (l.channels - 1))) :=
    line_lt (falls _ (slotComb_lt hk (mem_range.mp mem)) (testBit_slotComb_self k slot)) curve
  rw [evaluate_along plain fits hk dev, evaluate_along_other plain fits hk others]
  -- some slot has a positive weight, because the weights add up to one
  obtain ⟨slot, mem, positive⟩ := exists_cornerWeight_pos (l.channels - 1)
    (x := fun j => curveValue l b dev (otherChannel k j))
  refine sum_lt_sum (fun slot mem => ?_)
    ⟨slot, mem, mul_lt_mul_of_pos_right (line mem) positive⟩
  exact mul_le_mul_of_nonneg_right (line mem).le
    (cornerWeight_nonneg _ (fun _ => curveValue_mem_unit l b dev _) slot)

/-- Without ink interaction, a band whose primaries do not rise along a channel has no larger
value when there is more of that channel, and a smaller one when all of them fall and the
clamped amount is larger. -/
theorem evaluate_ordered :
    (b.FallsAlong l k → dev.getD k 0 ≤ dev'.getD k 0 → evaluate l b dev' ≤ evaluate l b dev) ∧
      (b.StrictlyFallsAlong l k → channelValue dev k < channelValue dev' k →
        evaluate l b dev' < evaluate l b dev) := by
  refine ⟨fun falls more => ?_, evaluate_lt_of_falls plain fits hk others⟩
  refine evaluate_le_of_falls plain fits hk others falls ?_
  rw [channelValue, channelValue, Scalar.real_zero]
  exact saturate_mono more

end Band

/-- A band of two channels without ink interaction that darkens with either. -/
noncomputable def darkeningBand : Band ℝ :=
  ⟨#[1, -1, 0, 1], #[], #[1, 0, 0, -1]⟩

theorem darkeningBand_strictlyFallsAlong :
    darkeningBand.StrictlyFallsAlong ⟨2, 2, false⟩ 0 := by
  intro c inside clear
  change c < 4 at inside
  interval_cases c
  · change (0 : ℝ) < 1
    norm_num
  · exact absurd clear (by decide)
  · change (-1 : ℝ) < 0
    norm_num
  · exact absurd clear (by decide)

/-- The first part holds from one ink amount beyond full to another, the second below. -/
theorem evaluate_ordered_darkeningBand :
    evaluate ⟨2, 2, false⟩ darkeningBand #[3, 1 / 2] ≤
        evaluate ⟨2, 2, false⟩ darkeningBand #[2, 1 / 2] ∧
      evaluate ⟨2, 2, false⟩ darkeningBand #[3 / 4, 1 / 2] <
        evaluate ⟨2, 2, false⟩ darkeningBand #[1 / 4, 1 / 2] := by
  have others (x y : ℝ) : ∀ j < 2, j ≠ 0 → #[x, 1 / 2].getD j 0 = #[y, 1 / 2].getD j 0 := by
    intro j inside ne
    match j, inside, ne with
    | 1, _, _ => rfl
  have clamped : channelValue (#[1 / 4, 1 / 2] : Array ℝ) 0 <
      channelValue (#[3 / 4, 1 / 2] : Array ℝ) 0 := by
    have quarter : (1 / 4 : ℝ) ∈ Set.Icc (0 : ℝ) 1 := by norm_num
    have most : (3 / 4 : ℝ) ∈ Set.Icc (0 : ℝ) 1 := by norm_num
    change saturate (1 / 4 : ℝ) < saturate (3 / 4 : ℝ)
    rw [saturate_of_mem quarter, saturate_of_mem most]
    norm_num
  have falls := darkeningBand_strictlyFallsAlong
  constructor
  · refine (evaluate_ordered rfl ⟨rfl, rfl, rfl⟩ Nat.zero_lt_two (others 2 3)).1 falls.falls ?_
    norm_num
  · exact (evaluate_ordered rfl ⟨rfl, rfl, rfl⟩ Nat.zero_lt_two
      (others (1 / 4) (3 / 4))).2 falls clamped

end InkModel
