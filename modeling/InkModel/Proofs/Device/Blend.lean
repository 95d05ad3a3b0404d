import InkModel.Device.Blend
import InkModel.Proofs.Device.Slots
import InkModel.Proofs.Exact

/-! # Blends in exact arithmetic

The weight of a corner is a product over the channels, so a blend is a sum of
products and its slope along a moving point is the sum of the slopes in each
channel.
-/

namespace InkModel

/-- What channel `j` contributes to the weight of a corner at the value `x`. -/
noncomputable def cornerTerm (comb j : ℕ) (x : ℝ) : ℝ := if comb.testBit j then x else 1 - x

theorem cornerFactor_eq (w : ℝ) (v : List ℝ) (comb : ℕ) :
    cornerFactor w v comb = w * cornerWeight v comb := by
  unfold cornerWeight
  induction v generalizing w comb with
  | nil => rw [cornerFactor, cornerFactor, Scalar.real_one, mul_one]
  | cons x v ih =>
      rw [cornerFactor, cornerFactor, ih, ih (_ * _), Scalar.real_one, one_mul]
      exact mul_assoc _ _ _

theorem cornerWeight_nil (comb : ℕ) : cornerWeight ([] : List ℝ) comb = 1 := Scalar.real_one

theorem cornerWeight_cons (x : ℝ) (v : List ℝ) (comb : ℕ) :
    cornerWeight (x :: v) comb = cornerTerm comb 0 x * cornerWeight v (comb / 2) := by
  have bit : comb.testBit 0 = decide (comb % 2 = 1) := Nat.testBit_zero comb
  rw [cornerWeight, cornerFactor, cornerFactor_eq, Scalar.real_one, cornerTerm, bit]
  by_cases odd : comb % 2 = 1
  · simp only [odd, ↓reduceIte, decide_true]
    exact congrArg (· * _) (one_mul x)
  · simp only [odd, ↓reduceIte, decide_false, Bool.false_eq_true]
    exact congrArg (· * _) (one_mul (1 - x))

theorem cornerWeight_range (n : ℕ) (x : ℕ → ℝ) (comb : ℕ) :
    cornerWeight ((List.range n).map x) comb =
      ∏ j ∈ Finset.range n, cornerTerm comb j (x j) := by
  induction n generalizing x comb with
  | zero => exact cornerWeight_nil comb
  | succ n ih =>
      have shifted (j : ℕ) (y : ℝ) : cornerTerm (comb / 2) j y = cornerTerm comb (j + 1) y := by
        rw [cornerTerm, cornerTerm, Nat.testBit_succ]
      rw [List.range_succ_eq_map, List.map_cons, List.map_map, cornerWeight_cons, ih,
        Finset.prod_range_succ', mul_comm]
      simp only [shifted, Function.comp_apply, Nat.succ_eq_add_one]

/-- The values of the channels other than `m`. -/
def otherValues (n m : ℕ) (t : ℕ → ℝ) : List ℝ :=
  (List.range (n - 1)).map fun j => t (otherChannel m j)

/-- The values of the other channels do not see a move along channel `k`. -/
theorem otherValues_congr {n k : ℕ} {t t' : ℕ → ℝ} (same : ∀ j < n, j ≠ k → t j = t' j) :
    otherValues n k t = otherValues n k t' := by
  refine List.map_congr_left fun j hj => ?_
  exact same _ (otherChannel_lt (List.mem_range.mp hj)) (otherChannel_ne k j)

theorem eraseIdx_range_map {n m : ℕ} (hm : m < n) (x : ℕ → ℝ) :
    ((List.range n).map x).eraseIdx m = (List.range (n - 1)).map fun j => x (otherChannel m j) := by
  apply List.ext_getElem
  · simp [List.length_eraseIdx, hm]
  · intro j h₁ h₂
    rw [List.getElem_eraseIdx]
    simp only [List.getElem_map, List.getElem_range]
    unfold otherChannel
    split <;> rfl

theorem blend_eq_sum (table : Array ℝ) (v : List ℝ) :
    blend table v = ∑ c ∈ Finset.range table.size, table.getD c 0 * cornerWeight v c := by
  rw [blend, Scalar.real_sumBelow, Scalar.real_zero]

/-- What the other channels contribute to a corner is the weight of its slot. -/
theorem prod_others {n m : ℕ} (hm : m < n) (x : ℕ → ℝ) (comb : ℕ) :
    ∏ j ∈ (Finset.range n).erase m, cornerTerm comb j (x j) =
      cornerWeight (otherValues n m x) (shapeSlot m comb) := by
  rw [otherValues, cornerWeight_range]
  refine Finset.prod_nbij' (otherPosition m) (otherChannel m) ?_ ?_ ?_ ?_ ?_
  · intro k hk
    rw [Finset.mem_erase, Finset.mem_range] at hk
    exact Finset.mem_range.mpr (otherPosition_lt hm hk.2 hk.1)
  · intro j hj
    rw [Finset.mem_range] at hj
    exact Finset.mem_erase.mpr ⟨otherChannel_ne m j, Finset.mem_range.mpr (otherChannel_lt hj)⟩
  · intro k hk
    exact otherChannel_otherPosition (Finset.ne_of_mem_erase hk)
  · intro j _
    exact otherPosition_otherChannel m j
  · intro k hk
    have own : otherChannel m (otherPosition m k) = k :=
      otherChannel_otherPosition (Finset.ne_of_mem_erase hk)
    rw [own, cornerTerm, cornerTerm, testBit_shapeSlot, own]

theorem cornerWeight_eq_mul {n m : ℕ} (hm : m < n) (x : ℕ → ℝ) (comb : ℕ) :
    cornerWeight ((List.range n).map x) comb =
      cornerTerm comb m (x m) * cornerWeight (otherValues n m x) (shapeSlot m comb) := by
  rw [cornerWeight_range, ← prod_others hm]
  exact (Finset.mul_prod_erase _ _ (Finset.mem_range.mpr hm)).symm

/-- A weighted sum over all corners, taken slot by slot: along channel `m` every slot is a
straight line between its two combinations. -/
theorem sum_mul_cornerWeight {n m : ℕ} (hm : m < n) (f x : ℕ → ℝ) :
    ∑ comb ∈ Finset.range (2 ^ n), f comb * cornerWeight ((List.range n).map x) comb =
      ∑ slot ∈ Finset.range (2 ^ (n - 1)),
        (f (slotComb m slot) * ((1 : ℝ) - x m) + f (slotComb m slot ||| 1 <<< m) * x m) *
          cornerWeight (otherValues n m x) slot := by
  rw [sum_combinations hm]
  refine Finset.sum_congr rfl fun slot _ => ?_
  have off : cornerTerm (slotComb m slot) m (x m) = 1 - x m := by simp [cornerTerm]
  have on : cornerTerm (slotComb m slot ||| 1 <<< m) m (x m) = x m := by simp [cornerTerm]
  rw [cornerWeight_eq_mul hm, cornerWeight_eq_mul hm, off, on, shapeSlot_withChannel,
    shapeSlot_slotComb]
  ring

/-- How the contribution of channel `j` follows its value. -/
noncomputable def cornerSign (comb j : ℕ) : ℝ := if comb.testBit j then 1 else -1

theorem hasDerivAt_cornerTerm (comb j : ℕ) {f : ℝ → ℝ} {f' s : ℝ} (h : HasDerivAt f f' s) :
    HasDerivAt (fun s => cornerTerm comb j (f s)) (cornerSign comb j * f') s := by
  unfold cornerTerm cornerSign
  split
  · simpa using h
  · simpa using h.const_sub 1

theorem blendSlope_eq_sum {table : Array ℝ} {n k : ℕ} (size : table.size = 2 ^ n) (hk : k < n)
    (x : ℕ → ℝ) :
    blendSlope table ((List.range n).map x) k =
      ∑ c ∈ Finset.range (2 ^ n), table.getD c 0 * (cornerSign c k *
        ∏ j ∈ (Finset.range n).erase k, cornerTerm c j (x j)) := by
  have half : table.size / 2 = 2 ^ (n - 1) := by
    rw [size, ← Nat.pow_div (by omega) (by decide), pow_one]
  rw [blendSlope, Scalar.real_sumBelow, half, sum_combinations hk]
  refine Finset.sum_congr rfl fun slot _ => ?_
  have off : cornerSign (slotComb k slot) k = -1 := by simp [cornerSign]
  have on : cornerSign (slotComb k slot ||| 1 <<< k) k = 1 := by
    simp [cornerSign]
  rw [prod_others hk, prod_others hk, shapeSlot_withChannel, shapeSlot_slotComb, otherValues,
    eraseIdx_range_map hk, off, on, Scalar.real_zero]
  change (_ - _) * _ = _
  ring

/-- A blend along moving channel values. -/
theorem hasDerivAt_blend {table : Array ℝ} {n : ℕ} (size : table.size = 2 ^ n)
    {f : ℕ → ℝ → ℝ} {f' : ℕ → ℝ} {s : ℝ} (h : ∀ j < n, HasDerivAt (f j) (f' j) s) :
    HasDerivAt (fun s => blend table ((List.range n).map fun j => f j s))
      (∑ k ∈ Finset.range n,
        blendSlope table ((List.range n).map fun j => f j s) k * f' k) s := by
  have corner (c : ℕ) := HasDerivAt.fun_finsetProd (u := Finset.range n)
    (f := fun j s => cornerTerm c j (f j s))
    fun j hj => hasDerivAt_cornerTerm c j (h j (Finset.mem_range.mp hj))
  have total := HasDerivAt.fun_sum (u := Finset.range table.size)
    fun c _ => (corner c).const_mul (table.getD c 0)
  simp only [blend_eq_sum, cornerWeight_range]
  refine total.congr_deriv ?_
  simp only [Finset.mul_sum, size]
  rw [Finset.sum_comm]
  refine Finset.sum_congr rfl fun k hk => ?_
  rw [blendSlope_eq_sum size (Finset.mem_range.mp hk), Finset.sum_mul]
  refine Finset.sum_congr rfl fun c _ => ?_
  rw [smul_eq_mul]
  ring

/-- A blend as one of its entries moves. -/
theorem hasDerivAt_blend_entry {table : Array ℝ} {c : ℕ} (hc : c < table.size) (v : List ℝ) :
    HasDerivAt (fun x => blend (table.setIfInBounds c x) v) (cornerWeight v c) table[c] := by
  have entry : HasDerivAt (fun x => x * cornerWeight v c) (cornerWeight v c) table[c] := by
    simpa using (hasDerivAt_id table[c]).mul_const (cornerWeight v c)
  simp only [blend_eq_sum, Array.size_setIfInBounds]
  exact hasDerivAt_sum_entry (fun i x => x * cornerWeight v i) hc entry

end InkModel
