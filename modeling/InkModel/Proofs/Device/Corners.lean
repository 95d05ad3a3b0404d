import InkModel.Proofs.Device.Gradient

/-! # Convexity of the forward model

Transfer curves and ink interaction keep `[0, 1]` and both of its ends. So the
weights of the corners are never negative, add up to one, and leave a single
primary at every corner of the device.
-/

namespace InkModel

open Finset

/-- Whether channel `m` is at full in a combination, as a number. -/
noncomputable def cornerValue (comb m : ℕ) : ℝ := if comb.testBit m then 1 else 0

theorem cornerValue_cases (comb m : ℕ) :
    (comb.testBit m = true ∧ cornerValue comb m = 1) ∨
      (comb.testBit m = false ∧ cornerValue comb m = 0) := by
  unfold cornerValue
  cases comb.testBit m with
  | true => exact .inl ⟨rfl, if_pos rfl⟩
  | false => exact .inr ⟨rfl, if_neg Bool.false_ne_true⟩

theorem cornerValue_mem (comb m : ℕ) : cornerValue comb m ∈ Set.Icc (0 : ℝ) 1 := by
  rcases cornerValue_cases comb m with ⟨-, full⟩ | ⟨-, off⟩ <;> simp [*]

/-! The ends of the curves. -/

theorem LineWarp.at_whole (c : ℝ) (n : ℤ) : lineWarp c n = n := by
  rw [LineWarp.of_floor (Int.floor_intCast n), sub_self, Bias.at_zero, zero_add]

theorem Harmonic.at_zero (o : ℕ) (c : ℝ) : harmonic o c 0 = 0 := by
  have start := LineWarp.at_whole c 0
  rw [Int.cast_zero] at start
  rw [harmonic, zero_mul, start, zero_div]

theorem Harmonic.at_one (o : ℕ) (c : ℝ) : harmonic o c 1 = 1 := by
  have last := LineWarp.at_whole c (o + 1 : ℕ)
  rw [Int.cast_natCast] at last
  rw [harmonic, one_mul, last]
  exact div_self (Nat.cast_ne_zero.mpr o.succ_ne_zero)

theorem transferFrom_ends (o : ℕ) (cs : List ℝ) :
    transferFrom o cs 0 = 0 ∧ transferFrom o cs 1 = 1 := by
  induction cs generalizing o with
  | nil => exact ⟨rfl, rfl⟩
  | cons c cs ih =>
      rw [transferFrom_cons, transferFrom_cons, Harmonic.at_zero, Harmonic.at_one]
      exact ih (o + 1)

theorem transfer_cornerValue (cs : List ℝ) (comb m : ℕ) :
    transfer cs (cornerValue comb m) = cornerValue comb m := by
  rcases cornerValue_cases comb m with ⟨-, full⟩ | ⟨-, off⟩
  · rw [full]
    exact (transferFrom_ends 0 cs).2
  · rw [off]
    exact (transferFrom_ends 0 cs).1

section Warp

variable (l : Layout) (b : Band ℝ) (m : ℕ)

theorem channelWarp_mem_unit {t : ℕ → ℝ} (unit : t m ∈ Set.Icc (0 : ℝ) 1) :
    (channelWarp l b t m).value ∈ Set.Icc (0 : ℝ) 1 := by
  unfold channelWarp
  cases l.shaped with
  | true =>
      simp only [↓reduceIte, Bias.value_eq]
      exact Bias.mem_unit _ unit
  | false => exact unit

theorem channelWarp_cornerValue {t : ℕ → ℝ} {comb : ℕ} (corner : t m = cornerValue comb m) :
    (channelWarp l b t m).value = cornerValue comb m := by
  unfold channelWarp
  rw [corner]
  cases l.shaped with
  | true =>
      simp only [↓reduceIte, Bias.value_eq]
      rcases cornerValue_cases comb m with ⟨-, full⟩ | ⟨-, off⟩
      · rw [full, Bias.at_one]
      · rw [off, Bias.at_zero]
  | false => rfl

end Warp

/-! The weights of the corners. -/

theorem cornerTerm_nonneg (comb j : ℕ) {x : ℝ} (unit : x ∈ Set.Icc (0 : ℝ) 1) :
    0 ≤ cornerTerm comb j x := by
  unfold cornerTerm
  split
  · exact unit.1
  · exact sub_nonneg.mpr unit.2

theorem cornerWeight_nonneg (n : ℕ) {x : ℕ → ℝ} (unit : ∀ j, x j ∈ Set.Icc (0 : ℝ) 1) (comb : ℕ) :
    0 ≤ cornerWeight ((List.range n).map x) comb := by
  rw [cornerWeight_range]
  exact prod_nonneg fun j _ => cornerTerm_nonneg comb j (unit j)

/-- The weights add up to one at all values, inside `[0, 1]` or not. -/
theorem sum_cornerWeight (n : ℕ) (x : ℕ → ℝ) :
    ∑ comb ∈ range (2 ^ n), cornerWeight ((List.range n).map x) comb = 1 := by
  induction n generalizing x with
  | zero => simp [cornerWeight_nil]
  | succ n ih =>
      have slots := sum_mul_cornerWeight n.lt_succ_self (fun _ => 1) x
      simp only [one_mul, sub_add_cancel] at slots
      rw [slots]
      exact ih _

/-- At a corner all weight lies on its own combination. -/
theorem cornerWeight_corner {n comb comb' : ℕ} (hc : comb < 2 ^ n) (hc' : comb' < 2 ^ n) :
    cornerWeight ((List.range n).map (cornerValue comb)) comb' = if comb' = comb then 1 else 0 := by
  rw [cornerWeight_range]
  by_cases own : comb' = comb
  · rw [if_pos own, own]
    refine prod_eq_one fun j _ => ?_
    rcases cornerValue_cases comb j with ⟨bit, value⟩ | ⟨bit, value⟩ <;>
      simp [cornerTerm, bit, value]
  · rw [if_neg own]
    obtain ⟨j, differ⟩ : ∃ j, comb'.testBit j ≠ comb.testBit j := by
      by_contra same
      push Not at same
      exact own (Nat.eq_of_testBit_eq same)
    have inside : j < n := by
      by_contra beyond
      exact differ ((lt_two_pow_iff.mp hc' j (not_lt.mp beyond)).trans
        (lt_two_pow_iff.mp hc j (not_lt.mp beyond)).symm)
    refine prod_eq_zero (mem_range.mpr inside) ?_
    rcases cornerValue_cases comb j with ⟨bit, value⟩ | ⟨bit, value⟩ <;>
      cases other : comb'.testBit j <;> simp_all [cornerTerm]

/-! The band value. -/

/-- Weights that make a value a convex combination of the entries of a table. -/
structure IsConvexCombination (weights table : Array ℝ) (value : ℝ) : Prop where
  size : weights.size = table.size
  nonneg : ∀ w ∈ weights, 0 ≤ w
  total : ∑ i ∈ range table.size, weights.getD i 0 = 1
  value_eq : value = ∑ i ∈ range table.size, weights.getD i 0 * table.getD i 0

/-- A convex combination lies between the smallest and the largest entry. -/
theorem IsConvexCombination.between {weights table : Array ℝ} {value : ℝ}
    (h : IsConvexCombination weights table value) :
    ∃ lo ∈ table, ∃ hi ∈ table, (∀ x ∈ table, lo ≤ x ∧ x ≤ hi) ∧ lo ≤ value ∧ value ≤ hi := by
  have entry {i : ℕ} (hi : i ∈ range table.size) : table.getD i 0 ∈ table := by
    simp [mem_range.mp hi]
  have weight {i : ℕ} (hi : i ∈ range table.size) : 0 ≤ weights.getD i 0 := by
    have inside : i < weights.size := h.size ▸ mem_range.mp hi
    rw [Array.getD_eq_getD_getElem?, Array.getElem?_eq_getElem inside, Option.getD_some]
    exact h.nonneg _ (Array.getElem_mem inside)
  have nonempty : (range table.size).Nonempty := by
    rw [nonempty_iff_ne_empty]
    intro empty
    have total := h.total
    rw [empty, sum_empty] at total
    exact zero_ne_one total
  obtain ⟨i, hi, least⟩ := exists_min_image _ (fun i => table.getD i 0) nonempty
  obtain ⟨j, hj, greatest⟩ := exists_max_image _ (fun i => table.getD i 0) nonempty
  refine ⟨_, entry hi, _, entry hj, fun x mem => ?_, ?_, ?_⟩
  · obtain ⟨k, hk, rfl⟩ := Array.mem_iff_getElem.mp mem
    have value : table.getD k 0 = table[k] := by simp [hk]
    exact ⟨value ▸ least k (mem_range.mpr hk), value ▸ greatest k (mem_range.mpr hk)⟩
  · calc table.getD i 0
        = ∑ k ∈ range table.size, weights.getD k 0 * table.getD i 0 := by
          rw [← sum_mul, h.total, one_mul]
      _ ≤ ∑ k ∈ range table.size, weights.getD k 0 * table.getD k 0 :=
          sum_le_sum fun k hk => mul_le_mul_of_nonneg_left (least k hk) (weight hk)
      _ = value := h.value_eq.symm
  · calc value
        = ∑ k ∈ range table.size, weights.getD k 0 * table.getD k 0 := h.value_eq
      _ ≤ ∑ k ∈ range table.size, weights.getD k 0 * table.getD j 0 :=
          sum_le_sum fun k hk => mul_le_mul_of_nonneg_left (greatest k hk) (weight hk)
      _ = table.getD j 0 := by rw [← sum_mul, h.total, one_mul]

section Band

variable {l : Layout} {b : Band ℝ}

/-- Device values with every channel of a combination at full and every other off. -/
def IsCorner (l : Layout) (comb : ℕ) (dev : Array ℝ) : Prop :=
  ∀ m < l.channels, dev[m]? = some (cornerValue comb m)

theorem curveValue_corner {comb : ℕ} {dev : Array ℝ} (corner : IsCorner l comb dev) {m : ℕ}
    (hm : m < l.channels) : curveValue l b dev m = cornerValue comb m := by
  have value : channelValue dev m = cornerValue comb m := by
    rw [channelValue, Array.getD_eq_getD_getElem?, corner m hm, Option.getD_some,
      saturate_of_mem (cornerValue_mem comb m)]
  rw [curveValue, value, transfer_cornerValue]

theorem warpedValues_corner {comb : ℕ} {dev : Array ℝ} (corner : IsCorner l comb dev) :
    warpedValues l b (curveValue l b dev) = (List.range l.channels).map (cornerValue comb) := by
  refine List.map_congr_left fun m hm => ?_
  exact channelWarp_cornerValue l b m (curveValue_corner corner (List.mem_range.mp hm))

theorem gradientOver_primaries (fits : b.Fits l) (dev : Array ℝ) {old : Gradient ℝ}
    (sizes : old.Fits l) :
    (gradientOver l b dev old).primaries = (Array.range l.combinations).map
      (cornerWeight (warpedValues l b (curveValue l b dev))) := by
  rw [gradientOver_eq fits dev sizes]
  rfl

theorem gradientOver_convex (fits : b.Fits l) (dev : Array ℝ) {old : Gradient ℝ}
    (sizes : old.Fits l) :
    IsConvexCombination (gradientOver l b dev old).primaries b.primaries (evaluate l b dev) := by
  have size : b.primaries.size = 2 ^ l.channels := fits.2.2
  have unit (m : ℕ) : (channelWarp l b (curveValue l b dev) m).value ∈ Set.Icc (0 : ℝ) 1 :=
    channelWarp_mem_unit l b m (curveValue_mem_unit l b dev m)
  rw [gradientOver_primaries fits dev sizes]
  have weight {i : ℕ} (hi : i ∈ range b.primaries.size) :
      ((Array.range l.combinations).map
        (cornerWeight (warpedValues l b (curveValue l b dev)))).getD i 0 =
        cornerWeight (warpedValues l b (curveValue l b dev)) i := by
    have inside : i < l.combinations := fits.2.2 ▸ mem_range.mp hi
    simp [inside]
  refine ⟨by simp [fits.2.2], ?_, ?_, ?_⟩
  · intro w mem
    obtain ⟨comb, -, rfl⟩ := Array.mem_map.mp mem
    exact cornerWeight_nonneg l.channels unit comb
  · rw [sum_congr rfl fun i => weight, size]
    exact sum_cornerWeight l.channels _
  · rw [sum_congr rfl fun i hi => by rw [weight hi], evaluate_eq, response, blend_eq_sum]
    exact sum_congr rfl fun i _ => mul_comm _ _

/-- At a corner the weight of its combination is one, and the band value is its primary. -/
theorem gradientOver_corner (fits : b.Fits l) {comb : ℕ} (hc : comb < l.combinations)
    {dev : Array ℝ} (corner : IsCorner l comb dev) {old : Gradient ℝ} (sizes : old.Fits l) :
    (gradientOver l b dev old).primaries[comb]? = some 1 ∧
      b.primaries[comb]? = some (evaluate l b dev) := by
  have inside : comb < b.primaries.size := fits.2.2 ▸ hc
  constructor
  · rw [gradientOver_primaries fits dev sizes, warpedValues_corner corner, Array.getElem?_map,
      Array.getElem?_range, if_pos hc, Option.map_some, cornerWeight_corner hc hc, if_pos rfl]
  · rw [evaluate_eq, response, blend_eq_sum, warpedValues_corner corner, sum_eq_single comb]
    · rw [cornerWeight_corner hc hc, if_pos rfl, mul_one]
      simp [inside]
    · intro comb' mem other
      have hc' : comb' < l.combinations := fits.2.2 ▸ mem_range.mp mem
      rw [cornerWeight_corner hc hc', if_neg other, mul_zero]
    · intro absent
      exact absurd (mem_range.mpr inside) absent

end Band

end InkModel
