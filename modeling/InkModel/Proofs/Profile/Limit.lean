import InkModel.Proofs.Device.Bias
import InkModel.Proofs.Profile.Neutral

/-! # Clipping to the ink limit

Device values are scaled down until their sum is the limit. What lies in the
device cube stays in it.
-/

namespace InkModel

section Limit

variable {dev : Array ℝ} {l : ℝ}

theorem map_saturate_of_unit (unit : ∀ d ∈ dev, d ∈ Set.Icc (0 : ℝ) 1) :
    dev.map saturate = dev := by
  calc dev.map saturate = dev.map id :=
        Array.map_congr_left fun d mem => saturate_of_mem (unit d mem)
    _ = dev := Array.map_id dev

theorem map_saturate_unit (dev : Array ℝ) : ∀ d ∈ dev.map saturate, d ∈ Set.Icc (0 : ℝ) 1 := by
  intro d mem
  obtain ⟨x, -, rfl⟩ := Array.mem_map.mp mem
  exact saturate_mem x

theorem total_eq_sum (dev : Array ℝ) :
    dev.foldl (· + ·) (@OfNat.ofNat ℝ 0 Scalar.instOfNat) = dev.toList.sum := by
  rw [← Array.foldl_toList]
  exact Scalar.real_sum dev.toList

theorem clipToLimit_of_le (within : dev.toList.sum ≤ l) : clipToLimit dev (some l) = dev := by
  rw [clipToLimit, total_eq_sum]
  exact if_neg fun exceeds => exceeds.1.not_ge within

theorem clipToLimit_of_lt (pos : 0 < l) (exceeds : l < dev.toList.sum) :
    clipToLimit dev (some l) = dev.map (· * (l / dev.toList.sum)) := by
  rw [clipToLimit, total_eq_sum, Scalar.real_zero]
  exact if_pos ⟨exceeds, pos.trans exceeds⟩

theorem clipToLimit_size {α : Type} [Scalar α] (dev : Array α) (limit : Option α) :
    (clipToLimit dev limit).size = dev.size := by
  unfold clipToLimit
  split
  · rfl
  · dsimp only
    split
    · exact Array.size_map
    · rfl

theorem sum_clipToLimit_of_lt (pos : 0 < l) (exceeds : l < dev.toList.sum) :
    (clipToLimit dev (some l)).toList.sum = l := by
  have total := (pos.trans exceeds).ne'
  rw [clipToLimit_of_lt pos exceeds, Array.toList_map, List.sum_map_mul_right, List.map_id',
    mul_div_cancel₀ _ total]

theorem sum_clipToLimit_le (pos : 0 < l) : (clipToLimit dev (some l)).toList.sum ≤ l := by
  rcases le_or_gt dev.toList.sum l with within | exceeds
  · rwa [clipToLimit_of_le within]
  · exact (sum_clipToLimit_of_lt pos exceeds).le

/-- Values that stay below the limit have not been scaled. -/
theorem clipToLimit_of_sum_lt {limit : Option ℝ} (pos : ∀ l, limit = some l → 0 < l)
    (below : ∀ l, limit = some l → (clipToLimit dev limit).toList.sum < l) :
    clipToLimit dev limit = dev := by
  cases limit with
  | none => rfl
  | some l =>
      rcases le_or_gt dev.toList.sum l with within | exceeds
      · exact clipToLimit_of_le within
      · exact absurd (sum_clipToLimit_of_lt (pos l rfl) exceeds) (below l rfl).ne

theorem clipToLimit_mem_unit {limit : Option ℝ} (pos : ∀ l, limit = some l → 0 < l)
    (unit : ∀ d ∈ dev, d ∈ Set.Icc (0 : ℝ) 1) :
    ∀ d ∈ clipToLimit dev limit, d ∈ Set.Icc (0 : ℝ) 1 := by
  cases limit with
  | none => exact unit
  | some l =>
      have pos := pos l rfl
      rcases le_or_gt dev.toList.sum l with within | exceeds
      · rwa [clipToLimit_of_le within]
      · rw [clipToLimit_of_lt pos exceeds]
        intro d scaled
        obtain ⟨d, mem, rfl⟩ := Array.mem_map.mp scaled
        have scale : 0 ≤ l / dev.toList.sum := div_nonneg pos.le (pos.trans exceeds).le
        have shrinks : l / dev.toList.sum ≤ 1 := (div_le_one (pos.trans exceeds)).mpr exceeds.le
        exact ⟨mul_nonneg (unit d mem).1 scale, mul_le_one₀ (unit d mem).2 scale shrinks⟩

end Limit

end InkModel
