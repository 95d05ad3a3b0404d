import InkModel.Device.Forward
import InkModel.Proofs.Device.Blend
import InkModel.Proofs.Device.Layout
import InkModel.Proofs.Device.Transfer

/-! # The forward model as a function of channel values

Device values reach a band value through the values behind the transfer curves.
From there the band value is a blend of warped values, whose strengths are
blends of the other values.
-/

namespace InkModel

section Response

variable (l : Layout) (b : Band ℝ) (t : ℕ → ℝ)

/-- The ink interaction on channel `m` at the transferred values `t`. -/
noncomputable def channelWarp (m : ℕ) : BiasPartials ℝ :=
  if l.shaped then rationalBiasPartials (blend (b.slots l m) (otherValues l.channels m t)) (t m)
  else ⟨t m, 1, 0⟩

/-- The channel values after ink interaction. -/
noncomputable def warpedValues : List ℝ :=
  (List.range l.channels).map fun m => (channelWarp l b t m).value

/-- The band value at transferred values. -/
noncomputable def response : ℝ := blend b.primaries (warpedValues l b t)

end Response

/-- The value of channel `m` behind its transfer curve. -/
noncomputable def curveValue (l : Layout) (b : Band ℝ) (dev : Array ℝ) (m : ℕ) : ℝ :=
  transfer (b.curve l m) (channelValue dev m)

section Evaluate

variable (l : Layout) (b : Band ℝ) (dev : Array ℝ)

theorem curveValue_mem_unit (m : ℕ) : curveValue l b dev m ∈ Set.Icc (0 : ℝ) 1 :=
  transfer_mem_unit _ (saturate_mem _)

theorem transferred_eq : transferred l b dev = (List.range l.channels).map (curveValue l b dev) :=
  rfl

theorem shapeStrength_eq {m : ℕ} (hm : m < l.channels) (t : ℕ → ℝ) :
    shapeStrength l b ((List.range l.channels).map t) m =
      blend (b.slots l m) (otherValues l.channels m t) := by
  rw [shapeStrength, eraseIdx_range_map hm, otherValues]

theorem evaluate_eq : evaluate l b dev = response l b (curveValue l b dev) := by
  rw [evaluate, response, transferred_eq]
  congr 1
  rw [warped, warpedValues]
  by_cases shaped : l.shaped
  · rw [if_pos shaped]
    apply List.ext_getElem (by simp)
    intro m h₁ h₂
    have hm : m < l.channels := by simpa using h₂
    simp only [List.getElem_mapIdx, List.getElem_map, List.getElem_range, channelWarp, shaped,
      ↓reduceIte, Bias.value_eq, shapeStrength_eq l b hm]
  · rw [if_neg shaped]
    simp [channelWarp, shaped]

/-! The intermediate values that the slopes are made of. -/

theorem forwardPass_transferred :
    (forwardPass l b dev).transferred = (List.range l.channels).map (curveValue l b dev) := rfl

theorem forwardPass_warps : (forwardPass l b dev).warps =
    ((List.range l.channels).map (channelWarp l b (curveValue l b dev))).toArray := by
  rw [forwardPass]
  dsimp only
  rw [transferred_eq]
  apply Array.ext (by simp)
  intro m h₁ h₂
  have hm : m < l.channels := by simpa using h₂
  simp only [Array.getElem_mapIdx, List.getElem_toArray, List.getElem_map, List.getElem_range,
    channelWarp, shapeStrength_eq l b hm]
  by_cases shaped : l.shaped
  · simp only [shaped, ↓reduceIte]
  · simp only [shaped, Bool.false_eq_true, ↓reduceIte]
    rw [Scalar.real_one, Scalar.real_zero]

theorem forwardPass_warp {m : ℕ} (hm : m < l.channels) :
    (forwardPass l b dev).warp m = channelWarp l b (curveValue l b dev) m := by
  rw [ForwardPass.warp, forwardPass_warps]
  simp [hm]

theorem forwardPass_warped :
    (forwardPass l b dev).warped = warpedValues l b (curveValue l b dev) := by
  have values : (forwardPass l b dev).warped =
      ((forwardPass l b dev).warps.map (·.value)).toList := rfl
  rw [values, forwardPass_warps, warpedValues]
  simp

theorem forwardPass_outSlope {m : ℕ} (hm : m < l.channels) :
    (forwardPass l b dev).outSlopes.getD m 0 =
      blendSlope b.primaries (warpedValues l b (curveValue l b dev)) m := by
  have slopes : (forwardPass l b dev).outSlopes =
      (Array.range l.channels).map (blendSlope b.primaries (forwardPass l b dev).warped) := rfl
  rw [slopes, forwardPass_warped]
  simp [hm]

theorem forwardPass_value : (forwardPass l b dev).value b = evaluate l b dev := by
  rw [ForwardPass.value, forwardPass_warped, evaluate_eq, response]

end Evaluate

end InkModel
