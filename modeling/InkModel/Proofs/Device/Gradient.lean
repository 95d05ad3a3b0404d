import InkModel.Proofs.Device.Forward

/-! # The gradient of the forward model

Every filled entry of a gradient is the partial derivative of the band value in
exact arithmetic, whatever the tables held before. One channel value moves at a
time: it reaches the band value through its own warp, and through the strength
of every other warp.
-/

namespace InkModel

open Finset

section Slopes

variable {l : Layout} {b : Band ℝ}

theorem slots_size (fits : b.Fits l) {m : ℕ} (hm : m < l.channels) (shaped : l.shaped = true) :
    (b.slots l m).size = 2 ^ (l.channels - 1) := by
  rw [Band.slots, channelPart_size fits.2.1 hm, slotsPerChannel_eq hm shaped]

/-- A value of channel `k` that moves while the others stand still. -/
theorem hasDerivAt_update (t : ℕ → ℝ) (k j : ℕ) {f : ℝ → ℝ} {f' s : ℝ} (h : HasDerivAt f f' s) :
    HasDerivAt (fun s => Function.update t k (f s) j) (if j = k then f' else 0) s := by
  by_cases own : j = k
  · subst own
    simpa using h
  · simpa [own] using hasDerivAt_const s (t j)

variable {t : ℕ → ℝ} {k : ℕ} {f : ℝ → ℝ} {f' s : ℝ}

/-- The interaction strength of channel `m` along another channel `k`. -/
theorem hasDerivAt_strength_other (fits : b.Fits l) {m : ℕ} (hm : m < l.channels)
    (shaped : l.shaped = true) (hk : k < l.channels) (other : k ≠ m)
    (h : HasDerivAt f f' s) (start : f s = t k) :
    HasDerivAt
      (fun s => blend (b.slots l m) (otherValues l.channels m (Function.update t k (f s))))
      (blendSlope (b.slots l m) (otherValues l.channels m t) (otherPosition m k) * f') s := by
  have here : Function.update t k (f s) = t := by rw [start, Function.update_eq_self]
  have moved := hasDerivAt_blend (slots_size fits hm shaped)
    fun j _ => hasDerivAt_update t k (otherChannel m j) h
  rw [here] at moved
  refine moved.congr_deriv ?_
  rw [sum_eq_single (otherPosition m k)]
  · rw [if_pos (otherChannel_otherPosition other)]
    rfl
  · intro j _ apart
    have : otherChannel m j ≠ k := by
      rintro rfl
      exact apart (otherPosition_otherChannel m j).symm
    rw [if_neg this, mul_zero]
  · intro absent
    exact absurd (mem_range.mpr (otherPosition_lt hm hk other)) absent

/-- The strength of its own interaction does not depend on a channel. -/
theorem otherValues_update_self (n m : ℕ) (t : ℕ → ℝ) (x : ℝ) :
    otherValues n m (Function.update t m x) = otherValues n m t := by
  unfold otherValues
  congr 1
  funext j
  rw [Function.update_of_ne (otherChannel_ne m j)]

/-- Slope of the interaction strength of channel `m` in the value of channel `k`. -/
noncomputable def strengthSlopeAt (l : Layout) (b : Band ℝ) (t : ℕ → ℝ) (m k : ℕ) : ℝ :=
  if l.shaped then
    blendSlope (b.slots l m) (otherValues l.channels m t) (otherPosition m k)
  else 0

theorem hasDerivAt_channelWarp (fits : b.Fits l) (unit : ∀ j, t j ∈ Set.Icc (0 : ℝ) 1) {m : ℕ}
    (hm : m < l.channels) (hk : k < l.channels) (h : HasDerivAt f f' s) (start : f s = t k) :
    HasDerivAt (fun s => (channelWarp l b (Function.update t k (f s)) m).value)
      ((if m = k then (channelWarp l b t m).slope
        else (channelWarp l b t m).strengthSlope * strengthSlopeAt l b t m k) * f') s := by
  unfold channelWarp strengthSlopeAt
  by_cases shaped : l.shaped
  · simp only [shaped, ↓reduceIte, Bias.value_eq]
    by_cases own : m = k
    · subst own
      have warp := Bias.hasDerivAt (blend (b.slots l m) (otherValues l.channels m t)) (unit m)
      rw [← start] at warp
      simp only [otherValues_update_self, Function.update_self, ↓reduceIte, ← start]
      exact warp.comp s h
    · have strength := hasDerivAt_strength_other fits hm shaped hk (Ne.symm own) h start
      have here : Function.update t k (f s) = t := by rw [start, Function.update_eq_self]
      have warp := Bias.hasDerivAt_strength
        (blend (b.slots l m) (otherValues l.channels m (Function.update t k (f s)))) (unit m)
      simp only [Function.update_of_ne own, own, ↓reduceIte, mul_assoc]
      rw [here] at warp
      exact HasDerivAt.comp s (by rw [here]; exact warp) strength
  · simp only [shaped, Bool.false_eq_true, ↓reduceIte, mul_zero]
    refine (hasDerivAt_update t k m h).congr_deriv ?_
    split <;> simp

/-- Slope of the band value in the value of channel `k` behind its curve. -/
noncomputable def responseSlope (l : Layout) (b : Band ℝ) (t : ℕ → ℝ) (k : ℕ) : ℝ :=
  ∑ m ∈ range l.channels, blendSlope b.primaries (warpedValues l b t) m *
    (if m = k then (channelWarp l b t m).slope
      else (channelWarp l b t m).strengthSlope * strengthSlopeAt l b t m k)

theorem hasDerivAt_response (fits : b.Fits l) (unit : ∀ j, t j ∈ Set.Icc (0 : ℝ) 1)
    (hk : k < l.channels) (h : HasDerivAt f f' s) (start : f s = t k) :
    HasDerivAt (fun s => response l b (Function.update t k (f s)))
      (responseSlope l b t k * f') s := by
  have here : Function.update t k (f s) = t := by rw [start, Function.update_eq_self]
  -- `hasDerivAt_blend` asks for all indices below the number of channels only.
  have moved := hasDerivAt_blend fits.2.2
    fun m hm => hasDerivAt_channelWarp fits unit hm hk h start
  rw [here] at moved
  refine moved.congr_deriv ?_
  rw [responseSlope, sum_mul]
  exact sum_congr rfl fun m _ => (mul_assoc _ _ _).symm

end Slopes

/-! The computed tables. -/

section Tables

variable {l : Layout} {b : Band ℝ} {dev : Array ℝ}

theorem fold_others {n k : ℕ} (hk : k < n) (init : ℝ) (g : ℕ → ℝ) :
    Nat.fold n (fun m _ acc => if m = k then acc else acc + g m) init =
      ∑ m ∈ range n, if m = k then init else g m := by
  have partial_sum (i : ℕ) : Nat.fold i (fun m _ acc => if m = k then acc else acc + g m) init =
      init + ∑ m ∈ range i, if m = k then 0 else g m := by
    induction i with
    | zero => simp
    | succ i ih =>
        rw [Nat.fold_succ, ih, sum_range_succ]
        split <;> ring
  rw [partial_sum, ← sum_erase_add _ _ (mem_range.mpr hk), ← sum_erase_add _ _ (mem_range.mpr hk)]
  simp only [↓reduceIte, add_zero]
  rw [add_comm]
  congr 1
  refine sum_congr rfl fun m hm => ?_
  rw [if_neg (ne_of_mem_erase hm), if_neg (ne_of_mem_erase hm)]

theorem forwardPass_strengthEffect {m : ℕ} (hm : m < l.channels) :
    (forwardPass l b dev).strengthEffect m =
      blendSlope b.primaries (warpedValues l b (curveValue l b dev)) m *
        (channelWarp l b (curveValue l b dev) m).strengthSlope := by
  rw [ForwardPass.strengthEffect, Scalar.real_zero, forwardPass_outSlope l b dev hm,
    forwardPass_warp l b dev hm]

theorem forwardPass_strengthSlope {m : ℕ} (hm : m < l.channels) (k : ℕ) :
    (forwardPass l b dev).strengthSlope l b m k =
      strengthSlopeAt l b (curveValue l b dev) m k := by
  rw [ForwardPass.strengthSlope, forwardPass_transferred, eraseIdx_range_map hm, Scalar.real_zero]
  rfl

theorem forwardPass_transferredSlope {k : ℕ} (hk : k < l.channels) :
    (forwardPass l b dev).transferredSlope l b k = responseSlope l b (curveValue l b dev) k := by
  rw [ForwardPass.transferredSlope, Scalar.real_zero]
  refine (fold_others hk _ fun m => (forwardPass l b dev).strengthEffect m *
    (forwardPass l b dev).strengthSlope l b m k).trans ?_
  refine sum_congr rfl fun m hm => ?_
  have hm := mem_range.mp hm
  rw [forwardPass_strengthEffect hm, forwardPass_strengthSlope hm,
    forwardPass_outSlope l b dev hk, forwardPass_warp l b dev hk]
  by_cases own : m = k
  · rw [if_pos own, if_pos own, own]
  · rw [if_neg own, if_neg own]
    exact mul_assoc _ _ _

/-- The band value with its partial derivatives, table by table. -/
noncomputable def slopeTables (l : Layout) (b : Band ℝ) (dev : Array ℝ) : Gradient ℝ :=
  let t := curveValue l b dev
  let x := channelValue dev
  { value := evaluate l b dev
    dev := (Array.range l.channels).map fun k =>
      responseSlope l b t k * curveSlope 0 (b.curve l k) (x k)
    transfer := (Array.range l.channels).flatMap fun k =>
      Array.ofFn fun o : Fin (b.curve l k).length =>
        curveCoefSlope 0 (b.curve l k) o (x k) * responseSlope l b t k
    shape := (Array.range l.channels).flatMap fun m =>
      (Array.range l.slotsPerChannel).map fun slot =>
        blendSlope b.primaries (warpedValues l b t) m * (channelWarp l b t m).strengthSlope *
          cornerWeight (otherValues l.channels m t) slot
    primaries := (Array.range l.combinations).map (cornerWeight (warpedValues l b t)) }

theorem mapIdx_entries {α β : Type} (table : Array α) (f : ℕ → β) :
    (table.mapIdx fun i _ => f i) = (Array.range table.size).map f := by
  apply Array.ext (by simp)
  intro i h₁ h₂
  simp

theorem flatMap_range_congr {α : Type} {n : ℕ} {f g : ℕ → Array α} (h : ∀ m < n, f m = g m) :
    (Array.range n).flatMap f = (Array.range n).flatMap g := by
  induction n with
  | zero => rfl
  | succ n ih =>
      rw [Array.range_succ, Array.flatMap_append, Array.flatMap_append,
        ih fun m hm => h m (Nat.lt_succ_of_lt hm), Array.flatMap_singleton,
        Array.flatMap_singleton, h n (Nat.lt_succ_self n)]

/-- The written tables do not depend on what stood in them. -/
theorem gradientOver_eq (fits : b.Fits l) (dev : Array ℝ) {old : Gradient ℝ}
    (sizes : old.Fits l) :
    gradientOver l b dev old = slopeTables l b dev := by
  obtain ⟨devSize, transferSize, shapeSize, primariesSize⟩ := sizes
  have dev_eq : (gradientOver l b dev old).dev = (slopeTables l b dev).dev := by
    apply Array.ext (by simp [gradientOver, ForwardPass.writeOver, slopeTables, devSize])
    intro k h₁ h₂
    have hk : k < l.channels := by simpa [slopeTables] using h₂
    simp [gradientOver, ForwardPass.writeOver, slopeTables, hk, transferPartialsOver_slope,
      forwardPass_transferredSlope hk]
  have transfer_eq : (gradientOver l b dev old).transfer = (slopeTables l b dev).transfer := by
    have curveSize {k : ℕ} (hk : k < l.channels) :
        (channelPart old.transfer l.order k).size = (b.curve l k).length := by
      rw [Band.curve, Array.length_toList, channelPart_size transferSize hk,
        channelPart_size fits.1 hk]
    dsimp only [gradientOver, ForwardPass.writeOver]
    rw [Array.zip_map', Array.flatMap_map]
    refine flatMap_range_congr fun k hk => ?_
    dsimp only
    rw [transferPartialsOver_coefSlopes _ (curveSize hk), forwardPass_transferredSlope hk]
    exact Array.map_ofFn
  have shape_eq : (gradientOver l b dev old).shape = (slopeTables l b dev).shape := by
    refine flatMap_range_congr fun m hm => ?_
    dsimp only
    rw [mapIdx_entries, channelPart_size shapeSize hm, forwardPass_strengthEffect hm,
      forwardPass_transferred, eraseIdx_range_map hm]
    rfl
  have primaries_eq : (gradientOver l b dev old).primaries = (slopeTables l b dev).primaries := by
    change (old.primaries.mapIdx fun c _ => _) = _
    rw [mapIdx_entries, primariesSize, forwardPass_warped]
    rfl
  have value_eq : (gradientOver l b dev old).value = (slopeTables l b dev).value :=
    forwardPass_value l b dev
  exact Gradient.ext value_eq dev_eq transfer_eq shape_eq primaries_eq

end Tables

/-! One parameter or one device value moves. -/

section Entries

variable {l : Layout} {b : Band ℝ} {dev : Array ℝ}

theorem exists_channel_entry {n size i : ℕ} (h : i < n * size) :
    ∃ m < n, ∃ e < size, i = m * size + e := by
  have pos : 0 < size := Nat.pos_of_ne_zero (by rintro rfl; simp at h)
  exact ⟨i / size, Nat.div_lt_of_lt_mul (by rwa [mul_comm]), i % size, Nat.mod_lt i pos,
    (Nat.div_add_mod' i size).symm⟩

theorem slopeTables_transfer (fits : b.Fits l) {i : ℕ} (hi : i < b.transfer.size) :
    HasDerivAt (fun x => evaluate l { b with transfer := b.transfer.setIfInBounds i x } dev)
      ((slopeTables l b dev).transfer.getD i 0) b.transfer[i] := by
  have total := fits.1
  rw [Layout.transferCount] at total
  obtain ⟨k, hk, o, ho, rfl⟩ := exists_channel_entry (total ▸ hi)
  have length : (b.curve l k).length = l.order := channelPart_size total hk
  have inside : o < (b.curve l k).length := length ▸ ho
  have moved (x : ℝ) :
      curveValue l { b with transfer := b.transfer.setIfInBounds (k * l.order + o) x } dev =
        Function.update (curveValue l b dev) k
          (transferFrom 0 ((b.curve l k).set o x) (channelValue dev k)) := by
    funext m
    by_cases own : m = k
    · subst own
      rw [Function.update_self, curveValue, transfer, Band.curve, channelPart_set_own ho]
      rw [Array.toList_setIfInBounds, Band.curve]
    · rw [Function.update_of_ne own, curveValue, Band.curve, channelPart_set_other own ho]
      rfl
  have entry : (b.curve l k)[o] = b.transfer[k * l.order + o] := channelPart_getElem ho hi inside
  have own := hasDerivAt_transferFrom_coef 0 (b.curve l k) inside (channelValue dev k)
  have start : transferFrom 0 ((b.curve l k).set o (b.curve l k)[o]) (channelValue dev k) =
      curveValue l b dev k := by
    rw [List.set_getElem_self]
    rfl
  have whole := hasDerivAt_response fits (curveValue_mem_unit l b dev) hk own start
  rw [entry] at whole
  simp only [evaluate_eq, moved]
  refine HasDerivAt.congr_deriv whole ?_
  have sizes (m : ℕ) (hm : m < l.channels) : (Array.ofFn fun o : Fin (b.curve l m).length =>
      curveCoefSlope 0 (b.curve l m) o (channelValue dev m) *
        responseSlope l b (curveValue l b dev) m).size = l.order := by
    rw [Array.size_ofFn]
    exact channelPart_size total hm
  rw [Array.getD_eq_getD_getElem?, slopeTables]
  dsimp only
  rw [flatMap_range_getElem? sizes hk ho, Array.getElem?_ofFn, dif_pos inside, Option.getD_some,
    mul_comm]

/-- A shape parameter moves the warp of its own channel only. -/
theorem channelWarp_set_slot (shaped : l.shaped = true) {m slot : ℕ}
    (hslot : slot < l.slotsPerChannel) (t : ℕ → ℝ) (x : ℝ) (j : ℕ) :
    (channelWarp l { b with
      shape := b.shape.setIfInBounds (m * l.slotsPerChannel + slot) x } t j).value =
      if j = m then rationalBias (blend ((b.slots l m).setIfInBounds slot x)
        (otherValues l.channels m t)) (t m)
      else (channelWarp l b t j).value := by
  simp only [channelWarp, Band.slots, shaped, ↓reduceIte, Bias.value_eq]
  by_cases own : j = m
  · subst own
    rw [if_pos rfl, channelPart_set_own hslot]
  · rw [if_neg own, channelPart_set_other own hslot]

theorem hasDerivAt_channelWarp_slot (shaped : l.shaped = true) {t : ℕ → ℝ}
    (unit : ∀ j, t j ∈ Set.Icc (0 : ℝ) 1) {m slot : ℕ} (hslot : slot < l.slotsPerChannel)
    (inside : slot < (b.slots l m).size) (j : ℕ) :
    HasDerivAt (fun x => (channelWarp l { b with
        shape := b.shape.setIfInBounds (m * l.slotsPerChannel + slot) x } t j).value)
      (if j = m then (channelWarp l b t m).strengthSlope *
        cornerWeight (otherValues l.channels m t) slot else 0) (b.slots l m)[slot] := by
  simp only [channelWarp_set_slot shaped hslot]
  by_cases own : j = m
  · subst own
    have strength := hasDerivAt_blend_entry inside (otherValues l.channels j t)
    have bias := Bias.hasDerivAt_strength (blend (b.slots l j) (otherValues l.channels j t))
      (unit j)
    have start := setIfInBounds_getElem_self inside
    simp only [↓reduceIte]
    rw [channelWarp, if_pos shaped]
    exact HasDerivAt.comp (b.slots l j)[slot] (by rw [start]; exact bias) strength
  · simp only [own, ↓reduceIte]
    exact hasDerivAt_const _ _

theorem slopeTables_shape (fits : b.Fits l) {i : ℕ} (hi : i < b.shape.size) :
    HasDerivAt (fun x => evaluate l { b with shape := b.shape.setIfInBounds i x } dev)
      ((slopeTables l b dev).shape.getD i 0) b.shape[i] := by
  have total := fits.2.1
  rw [Layout.shapeCount] at total
  obtain ⟨m, hm, slot, hslot, rfl⟩ := exists_channel_entry (total ▸ hi)
  have shaped : l.shaped = true := by
    by_contra plain
    simp [Layout.slotsPerChannel, plain] at hslot
  have inside : slot < (b.slots l m).size := by
    rw [Band.slots, channelPart_size total hm]
    exact hslot
  have entry : (b.slots l m)[slot] = b.shape[m * l.slotsPerChannel + slot] :=
    channelPart_getElem hslot hi inside
  have warp (j : ℕ) (_ : j < l.channels) :=
    hasDerivAt_channelWarp_slot shaped (curveValue_mem_unit l b dev) hslot inside j
  have moved := hasDerivAt_blend fits.2.2 warp
  rw [entry, setIfInBounds_getElem_self hi] at moved
  simp only [evaluate_eq]
  refine HasDerivAt.congr_deriv moved ?_
  have sizes (m : ℕ) (hm : m < l.channels) : ((Array.range l.slotsPerChannel).map fun slot =>
      blendSlope b.primaries (warpedValues l b (curveValue l b dev)) m *
        (channelWarp l b (curveValue l b dev) m).strengthSlope *
          cornerWeight (otherValues l.channels m (curveValue l b dev)) slot).size =
      l.slotsPerChannel := by simp
  rw [Array.getD_eq_getD_getElem?, slopeTables]
  dsimp only
  rw [flatMap_range_getElem? sizes hm hslot, sum_eq_single m]
  · rw [if_pos rfl, Array.getElem?_map, Array.getElem?_range, if_pos hslot, Option.map_some,
      Option.getD_some, mul_assoc]
    rfl
  · intro j _ other
    rw [if_neg other, mul_zero]
  · intro absent
    exact absurd (mem_range.mpr hm) absent

theorem slopeTables_primaries (fits : b.Fits l) {i : ℕ} (hi : i < b.primaries.size) :
    HasDerivAt (fun x => evaluate l { b with primaries := b.primaries.setIfInBounds i x } dev)
      ((slopeTables l b dev).primaries.getD i 0) b.primaries[i] := by
  have inside : i < l.combinations := fits.2.2 ▸ hi
  simp only [evaluate_eq]
  refine (hasDerivAt_blend_entry hi (warpedValues l b (curveValue l b dev))).congr_deriv ?_
  simp [slopeTables, inside]

theorem slopeTables_dev (fits : b.Fits l) {k : ℕ} (hk : k < l.channels) (inside : k < dev.size)
    (between : dev[k] ∈ Set.Ioo (0 : ℝ) 1) :
    HasDerivAt (fun x => evaluate l b (dev.setIfInBounds k x))
      ((slopeTables l b dev).dev.getD k 0) dev[k] := by
  have value : channelValue dev k = dev[k] := by
    rw [channelValue, Scalar.real_zero, Array.getD_eq_getD_getElem?,
      Array.getElem?_eq_getElem inside, Option.getD_some,
      saturate_of_mem ⟨between.1.le, between.2.le⟩]
  have clamp : HasDerivAt (fun x : ℝ => saturate x) 1 dev[k] := by
    refine (hasDerivAt_id dev[k]).congr_of_eventuallyEq ?_
    filter_upwards [Ioo_mem_nhds between.1 between.2] with x hx
    exact saturate_of_mem ⟨hx.1.le, hx.2.le⟩
  have moved (x : ℝ) : curveValue l b (dev.setIfInBounds k x) =
      Function.update (curveValue l b dev) k (transferFrom 0 (b.curve l k) (saturate x)) := by
    funext m
    by_cases own : m = k
    · subst own
      rw [Function.update_self, curveValue, transfer, channelValue, Array.getD_eq_getD_getElem?,
        Array.getElem?_setIfInBounds_self_of_lt inside, Option.getD_some]
    · rw [Function.update_of_ne own, curveValue, curveValue, channelValue, channelValue,
        Array.getD_eq_getD_getElem?, Array.getElem?_setIfInBounds_ne (Ne.symm own),
        ← Array.getD_eq_getD_getElem?]
  have own := hasDerivAt_transferFrom 0 (b.curve l k) (channelValue dev k)
  rw [value] at own
  have curve : HasDerivAt (fun x => transferFrom 0 (b.curve l k) (saturate x))
      (curveSlope 0 (b.curve l k) dev[k] * 1) dev[k] := by
    refine HasDerivAt.comp dev[k] ?_ clamp
    rwa [saturate_of_mem ⟨between.1.le, between.2.le⟩]
  have start : transferFrom 0 (b.curve l k) (saturate dev[k]) = curveValue l b dev k := by
    rw [curveValue, value, saturate_of_mem ⟨between.1.le, between.2.le⟩]
    rfl
  have whole := hasDerivAt_response fits (curveValue_mem_unit l b dev) hk curve start
  simp only [evaluate_eq, moved]
  refine whole.congr_deriv ?_
  simp [slopeTables, hk, value]

end Entries

/-- A gradient of a band value: its tables have the sizes of the layout, and
their entries are the partial derivatives of the value. A device value lies
inside `[0, 1]` for its entry: at the ends the clamp has a corner. -/
structure IsGradient (l : Layout) (b : Band ℝ) (dev : Array ℝ) (g : Gradient ℝ) : Prop where
  value : g.value = evaluate l b dev
  fits : g.Fits l
  transfer : ∀ i (_ : i < b.transfer.size), HasDerivAt
    (fun x => evaluate l { b with transfer := b.transfer.setIfInBounds i x } dev)
    (g.transfer.getD i 0) b.transfer[i]
  shape : ∀ i (_ : i < b.shape.size), HasDerivAt
    (fun x => evaluate l { b with shape := b.shape.setIfInBounds i x } dev)
    (g.shape.getD i 0) b.shape[i]
  primaries : ∀ i (_ : i < b.primaries.size), HasDerivAt
    (fun x => evaluate l { b with primaries := b.primaries.setIfInBounds i x } dev)
    (g.primaries.getD i 0) b.primaries[i]
  dev : ∀ k (_ : k < l.channels) (_ : k < dev.size), dev[k] ∈ Set.Ioo (0 : ℝ) 1 →
    HasDerivAt (fun x => evaluate l b (dev.setIfInBounds k x)) (g.dev.getD k 0) dev[k]

section Result

variable {l : Layout} {b : Band ℝ} {dev : Array ℝ}

theorem slopeTables_isGradient (fits : b.Fits l) : IsGradient l b dev (slopeTables l b dev) where
  value := rfl
  fits := by
    refine ⟨by simp [slopeTables], ?_, ?_, by simp [slopeTables]⟩
    · refine flatMap_range_size fun k hk => ?_
      rw [Array.size_ofFn]
      exact channelPart_size fits.1 hk
    · refine flatMap_range_size fun m _ => ?_
      simp
  transfer := fun _ hi => slopeTables_transfer fits hi
  shape := fun _ hi => slopeTables_shape fits hi
  primaries := fun _ hi => slopeTables_primaries fits hi
  dev := fun _ hk inside between => slopeTables_dev fits hk inside between

theorem zero_fits (l : Layout) : (Gradient.zero l : Gradient ℝ).Fits l := by
  simp [Gradient.Fits, Gradient.zero]

/-- What `gradientOver` writes is the gradient of the band value, for every
band and whatever the tables held: at the ends of sections, for coefficients
and interactions of strength zero. -/
theorem gradientOver_isGradient (fits : b.Fits l) (dev : Array ℝ) {old : Gradient ℝ}
    (sizes : old.Fits l) :
    IsGradient l b dev (gradientOver l b dev old) ∧
      gradientOver l b dev old = gradient l b dev := by
  have written := gradientOver_eq fits dev sizes
  have fresh := gradientOver_eq fits dev (zero_fits l)
  refine ⟨?_, written.trans fresh.symm⟩
  rw [written]
  exact slopeTables_isGradient fits

/-- A shaped band of two channels, with a harmonic left out in each curve,
interactions of strength zero, and primaries at zero and at the lightness knee. -/
noncomputable def twoChannelBand : Band ℝ :=
  ⟨#[0, 1, -1, 0], #[0, 1, -1, 0], #[0, 216 / 24389, 1, -1]⟩

/-- Tables for two channels that hold numbers of some other point. -/
def usedTables {α : Type} [Scalar α] : Gradient α :=
  ⟨7, #[1, 2], #[3, 4, 5, 6], #[7, 8, 9, 1], #[2, 3, 4, 5]⟩

/-- The first device value stands at the end of a section. -/
theorem gradientOver_isGradient_twoChannelBand :
    IsGradient ⟨2, 2, true⟩ twoChannelBand #[1 / 2, 1 / 4]
        (gradientOver ⟨2, 2, true⟩ twoChannelBand #[1 / 2, 1 / 4] usedTables) ∧
      gradientOver ⟨2, 2, true⟩ twoChannelBand #[1 / 2, 1 / 4] usedTables =
        gradient ⟨2, 2, true⟩ twoChannelBand #[1 / 2, 1 / 4] :=
  gradientOver_isGradient ⟨rfl, rfl, rfl⟩ #[1 / 2, 1 / 4] ⟨rfl, rfl, rfl, rfl⟩

end Result

end InkModel
