import InkModel.Proofs.Device.Gradient

/-! # The forward model over full combinations

The forward model sums compact slots, with the own factor of a channel left out. Its definition
on paper sums all combinations, with the factors of all channels, and ignores the bit of the
channel in the table instead. Both give the same band value, and without transfer and shape
parameters it is the n-linear interpolation of the primaries.
-/

namespace InkModel

open Finset

/-- The weight of a combination: `v j` for every channel in it, `1 - v j` for every other. -/
noncomputable def combinationWeight (n : ℕ) (v : ℕ → ℝ) (comb : ℕ) : ℝ :=
  ∏ j ∈ range n, if comb.testBit j then v j else 1 - v j

/-- The n-linear interpolation of a value for every combination. -/
noncomputable def interpolate (n : ℕ) (f v : ℕ → ℝ) : ℝ :=
  ∑ comb ∈ range (2 ^ n), f comb * combinationWeight n v comb

section Reference

variable (l : Layout) (b : Band ℝ) (dev : Array ℝ)

/-- The strength of the ink interaction on channel `m`, over all combinations. -/
noncomputable def referenceStrength (m : ℕ) : ℝ :=
  interpolate l.channels (b.shapeAt l m) (curveValue l b dev)

noncomputable def referenceWarp (m : ℕ) : ℝ :=
  if l.shaped then rationalBias (referenceStrength l b dev m) (curveValue l b dev m)
  else curveValue l b dev m

/-- The band value, over all combinations. -/
noncomputable def referenceValue : ℝ :=
  interpolate l.channels (fun comb => b.primaries.getD comb 0) (referenceWarp l b dev)

end Reference

theorem combinationWeight_eq (n : ℕ) (v : ℕ → ℝ) (comb : ℕ) :
    combinationWeight n v comb = cornerWeight ((List.range n).map v) comb :=
  (cornerWeight_range n v comb).symm

theorem blend_eq_interpolate {table : Array ℝ} {n : ℕ} (size : table.size = 2 ^ n) (v : ℕ → ℝ) :
    blend table ((List.range n).map v) = interpolate n (fun comb => table.getD comb 0) v := by
  rw [blend_eq_sum, size]
  exact sum_congr rfl fun comb _ => congrArg _ (combinationWeight_eq n v comb).symm

theorem interpolate_congr {n : ℕ} {f g v w : ℕ → ℝ} (same : ∀ comb < 2 ^ n, f comb = g comb)
    (values : ∀ j < n, v j = w j) : interpolate n f v = interpolate n g w := by
  refine sum_congr rfl fun comb mem => ?_
  rw [same comb (mem_range.mp mem)]
  refine congrArg _ (prod_congr rfl fun j mem => ?_)
  rw [values j (mem_range.mp mem)]

/-- What does not depend on channel `m` is interpolated by the other channels. -/
theorem interpolate_of_slots {n m : ℕ} (hm : m < n) (s v : ℕ → ℝ) :
    interpolate n (fun comb => s (shapeSlot m comb)) v =
      ∑ slot ∈ range (2 ^ (n - 1)), s slot * cornerWeight (otherValues n m v) slot := by
  simp only [interpolate, combinationWeight_eq]
  rw [sum_mul_cornerWeight hm]
  refine sum_congr rfl fun slot _ => ?_
  -- the two combinations of a slot share its entry, and `1 - v m` and `v m` add up to one
  rw [shapeSlot_withChannel, shapeSlot_slotComb]
  ring

theorem shapeAt_eq (b : Band ℝ) {l : Layout} {m : ℕ} (hm : m < l.channels)
    (shaped : l.shaped = true) {comb : ℕ} (inside : comb < 2 ^ l.channels) :
    b.shapeAt l m comb = (b.slots l m).getD (shapeSlot m comb) 0 := by
  have slot : shapeSlot m comb < l.slotsPerChannel := by
    rw [slotsPerChannel_eq hm shaped]
    exact shapeSlot_lt hm inside
  rw [Band.shapeAt, Band.slots, Array.getD_eq_getD_getElem?, Array.getD_eq_getD_getElem?,
    channelPart_getElem?, if_pos slot]

section Band

variable {l : Layout} {b : Band ℝ} (fits : b.Fits l) (dev : Array ℝ)

include fits

theorem referenceStrength_eq {m : ℕ} (hm : m < l.channels) (shaped : l.shaped = true) :
    referenceStrength l b dev m =
      blend (b.slots l m) (otherValues l.channels m (curveValue l b dev)) := by
  have size : (b.slots l m).size = 2 ^ (l.channels - 1) := by
    rw [Band.slots, channelPart_size fits.2.1 hm, slotsPerChannel_eq hm shaped]
  calc referenceStrength l b dev m
      = interpolate l.channels (fun comb => (b.slots l m).getD (shapeSlot m comb) 0)
          (curveValue l b dev) :=
        interpolate_congr (fun _ inside => shapeAt_eq b hm shaped inside) fun _ _ => rfl
    _ = blend (b.slots l m) (otherValues l.channels m (curveValue l b dev)) := by
        rw [interpolate_of_slots hm (fun slot => (b.slots l m).getD slot 0), blend_eq_sum, size]

theorem referenceWarp_eq {m : ℕ} (hm : m < l.channels) :
    referenceWarp l b dev m = (channelWarp l b (curveValue l b dev) m).value := by
  unfold referenceWarp channelWarp
  cases shaped : l.shaped with
  | true => simp only [↓reduceIte, Bias.value_eq, referenceStrength_eq fits dev hm shaped]
  | false => rfl

theorem evaluate_eq_referenceValue : evaluate l b dev = referenceValue l b dev := by
  rw [evaluate_eq, response, warpedValues, blend_eq_interpolate fits.2.2]
  exact interpolate_congr (fun _ _ => rfl) fun m hm => (referenceWarp_eq fits dev hm).symm

end Band

/-! Without transfer and shape parameters. -/

section Zero

variable (l : Layout) {b : Band ℝ}

theorem curveValue_zero (straight : ∀ c ∈ b.transfer, c = 0) (dev : Array ℝ) (m : ℕ) :
    curveValue l b dev m = channelValue dev m := by
  refine transferFrom_zero 0 (fun c mem => straight c ?_) _
  obtain ⟨i, entry⟩ := Array.mem_iff_getElem?.mp (Array.mem_toList_iff.mp mem)
  rw [channelPart_getElem?] at entry
  split at entry
  · exact Array.mem_of_getElem? entry
  · cases entry

theorem shapeAt_zero (still : ∀ s ∈ b.shape, s = 0) (m comb : ℕ) : b.shapeAt l m comb = 0 := by
  rw [Band.shapeAt, Array.getD_eq_getD_getElem?]
  cases entry : b.shape[m * l.slotsPerChannel + shapeSlot m comb]? with
  | none => rfl
  | some s => exact still s (Array.mem_of_getElem? entry)

theorem referenceWarp_zero (still : ∀ s ∈ b.shape, s = 0) (dev : Array ℝ) (m : ℕ) :
    referenceWarp l b dev m = curveValue l b dev m := by
  have strength : referenceStrength l b dev m = 0 := by
    rw [referenceStrength, interpolate]
    refine sum_eq_zero fun comb _ => ?_
    rw [shapeAt_zero l still, zero_mul]
  rw [referenceWarp, strength, Bias.strength_zero, ite_self]

end Zero

/-- The band value is the one of the definition over full combinations. With all transfer and
shape parameters zero it is the n-linear interpolation of the primaries at the clamped device
values. -/
theorem evaluate_refines_reference {l : Layout} {b : Band ℝ} (fits : b.Fits l) (dev : Array ℝ) :
    evaluate l b dev = referenceValue l b dev ∧
      ((∀ c ∈ b.transfer, c = 0) → (∀ s ∈ b.shape, s = 0) →
        evaluate l b dev = interpolate l.channels (fun comb => b.primaries.getD comb 0)
          (fun m => saturate (dev.getD m 0))) := by
  refine ⟨evaluate_eq_referenceValue fits dev, fun straight still => ?_⟩
  rw [evaluate_eq_referenceValue fits dev]
  refine interpolate_congr (fun _ _ => rfl) fun m _ => ?_
  rw [referenceWarp_zero l still, curveValue_zero l straight, channelValue, Scalar.real_zero]

/-- The same primaries with straight curves and no interaction. -/
noncomputable def flatBand : Band ℝ :=
  { twoChannelBand with transfer := #[0, 0, 0, 0], shape := #[0, 0, 0, 0] }

theorem evaluate_refines_reference_twoChannels :
    evaluate ⟨2, 2, true⟩ twoChannelBand #[1 / 2, 1 / 4] =
        referenceValue ⟨2, 2, true⟩ twoChannelBand #[1 / 2, 1 / 4] ∧
      evaluate ⟨2, 2, true⟩ flatBand #[2, 1 / 4] =
        interpolate 2 (fun comb => flatBand.primaries.getD comb 0)
          (fun m => saturate ((#[2, 1 / 4] : Array ℝ).getD m 0)) := by
  refine ⟨(evaluate_refines_reference ⟨rfl, rfl, rfl⟩ _).1, ?_⟩
  refine (evaluate_refines_reference ⟨rfl, rfl, rfl⟩ _).2 ?_ ?_ <;> simp [flatBand]

end InkModel
