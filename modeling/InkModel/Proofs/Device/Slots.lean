import InkModel.Device.Slots
import Mathlib

/-! # Compact slots as bit strings

A slot is its combination with one bit squeezed out. Both directions are read
bit by bit; the inverse laws and the sizes follow, and a sum over all
combinations becomes a sum over the slots of a channel.
-/

namespace InkModel

/-- The channel at position `j` among the channels other than `m`. -/
def otherChannel (m j : ℕ) : ℕ := if j < m then j else j + 1

/-- The position of channel `k` among the channels other than `m`. -/
def otherPosition (m k : ℕ) : ℕ := if k < m then k else k - 1

theorem otherChannel_ne (m j : ℕ) : otherChannel m j ≠ m := by
  unfold otherChannel
  split <;> omega

theorem otherChannel_otherPosition {m k : ℕ} (h : k ≠ m) :
    otherChannel m (otherPosition m k) = k := by
  unfold otherChannel otherPosition
  split_ifs <;> omega

theorem otherPosition_otherChannel (m j : ℕ) : otherPosition m (otherChannel m j) = j := by
  unfold otherChannel otherPosition
  split_ifs <;> omega

theorem otherChannel_lt {n m j : ℕ} (h : j < n - 1) : otherChannel m j < n := by
  unfold otherChannel
  split <;> omega

theorem otherPosition_lt {n m k : ℕ} (hm : m < n) (hk : k < n) (h : k ≠ m) :
    otherPosition m k < n - 1 := by
  unfold otherPosition
  split <;> omega

theorem testBit_shapeSlot (m comb j : ℕ) :
    (shapeSlot m comb).testBit j = comb.testBit (otherChannel m j) := by
  unfold shapeSlot otherChannel
  rw [Nat.testBit_or, Nat.testBit_and, Nat.one_shiftLeft, Nat.testBit_two_pow_sub_one,
    Nat.testBit_shiftLeft, Nat.testBit_shiftRight]
  by_cases low : j < m
  · simp [low]
  · have : m + 1 + (j - m) = j + 1 := by omega
    simp [low, this, Nat.le_of_not_lt low]

theorem testBit_slotComb (m slot j : ℕ) :
    (slotComb m slot).testBit j = (decide (j ≠ m) && slot.testBit (otherPosition m j)) := by
  unfold slotComb otherPosition
  rw [Nat.testBit_or, Nat.testBit_and, Nat.one_shiftLeft, Nat.testBit_two_pow_sub_one,
    Nat.testBit_shiftLeft, Nat.testBit_shiftRight]
  rcases lt_trichotomy j m with low | rfl | high
  · have : ¬ m + 1 ≤ j := by omega
    simp [low, this, low.ne]
  · simp
  · have : m + (j - (m + 1)) = j - 1 := by omega
    simp [high.not_gt, high.ne', this, Nat.succ_le_of_lt high]

@[simp] theorem testBit_slotComb_self (m slot : ℕ) : (slotComb m slot).testBit m = false := by
  simp [testBit_slotComb]

@[simp] theorem shapeSlot_slotComb (m slot : ℕ) : shapeSlot m (slotComb m slot) = slot := by
  apply Nat.eq_of_testBit_eq
  intro j
  rw [testBit_shapeSlot, testBit_slotComb, otherPosition_otherChannel]
  simp [otherChannel_ne]

/-- The combination without channel `m`. -/
def withoutChannel (m comb : ℕ) : ℕ := comb.ldiff (1 <<< m)

theorem testBit_withoutChannel (m comb j : ℕ) :
    (withoutChannel m comb).testBit j = (comb.testBit j && decide (j ≠ m)) := by
  rw [withoutChannel, Nat.testBit_ldiff, Nat.one_shiftLeft, Nat.testBit_two_pow]
  simp [eq_comm]

theorem slotComb_shapeSlot_eq (m comb : ℕ) :
    slotComb m (shapeSlot m comb) = withoutChannel m comb := by
  apply Nat.eq_of_testBit_eq
  intro j
  rw [testBit_slotComb, testBit_shapeSlot, testBit_withoutChannel]
  by_cases own : j = m
  · simp [own]
  · simp [own, otherChannel_otherPosition own]

theorem withoutChannel_of_clear {m comb : ℕ} (clear : comb.testBit m = false) :
    withoutChannel m comb = comb := by
  apply Nat.eq_of_testBit_eq
  intro j
  rw [testBit_withoutChannel]
  by_cases own : j = m
  · simp [own, clear]
  · simp [own]

theorem slotComb_shapeSlot {m comb : ℕ} (clear : comb.testBit m = false) :
    slotComb m (shapeSlot m comb) = comb := by
  rw [slotComb_shapeSlot_eq, withoutChannel_of_clear clear]

theorem lt_two_pow_iff {x n : ℕ} : x < 2 ^ n ↔ ∀ j ≥ n, x.testBit j = false := by
  constructor
  · intro h j hj
    exact Nat.testBit_lt_two_pow (h.trans_le (Nat.pow_le_pow_right (by decide) hj))
  · intro h
    exact Nat.lt_pow_two_of_testBit x h

theorem slotComb_lt {n m slot : ℕ} (hm : m < n) (h : slot < 2 ^ (n - 1)) :
    slotComb m slot < 2 ^ n := by
  rw [lt_two_pow_iff] at h ⊢
  intro j hj
  have high : n - 1 ≤ otherPosition m j := by
    unfold otherPosition
    split <;> omega
  rw [testBit_slotComb, h _ high, Bool.and_false]

theorem shapeSlot_lt {n m comb : ℕ} (hm : m < n) (h : comb < 2 ^ n) :
    shapeSlot m comb < 2 ^ (n - 1) := by
  rw [lt_two_pow_iff] at h ⊢
  intro j hj
  have high : n ≤ otherChannel m j := by
    unfold otherChannel
    split <;> omega
  rw [testBit_shapeSlot, h _ high]

theorem slotComb_eq (m slot : ℕ) : slotComb m slot = slot + slot / 2 ^ m * 2 ^ m := by
  have low : slot &&& ((1 <<< m) - 1) < 2 ^ (m + 1) := by
    rw [Nat.one_shiftLeft, Nat.and_two_pow_sub_one_eq_mod, pow_succ]
    have := Nat.mod_lt slot (Nat.two_pow_pos m)
    omega
  rw [slotComb, Nat.or_comm, ← Nat.shiftLeft_add_eq_or_of_lt low, Nat.shiftLeft_eq,
    Nat.one_shiftLeft, Nat.and_two_pow_sub_one_eq_mod, Nat.shiftRight_eq_div_pow]
  calc slot / 2 ^ m * 2 ^ (m + 1) + slot % 2 ^ m
      = 2 ^ m * (slot / 2 ^ m) + slot % 2 ^ m + slot / 2 ^ m * 2 ^ m := by ring
    _ = slot + slot / 2 ^ m * 2 ^ m := by rw [Nat.div_add_mod]

theorem slotComb_strictMono (m : ℕ) : StrictMono (slotComb m) := by
  intro a b less
  rw [slotComb_eq, slotComb_eq]
  exact Nat.add_lt_add_of_lt_of_le less
    (Nat.mul_le_mul_right _ (Nat.div_le_div_right less.le))

theorem shapeSlot_strictMonoOn (m : ℕ) :
    StrictMonoOn (shapeSlot m) {comb | comb.testBit m = false} := by
  intro a clear b clear' less
  rw [← slotComb_shapeSlot clear, ← slotComb_shapeSlot clear'] at less
  exact (slotComb_strictMono m).lt_iff_lt.mp less

/-- The slots of a channel stand for the combinations of the other channels. -/
theorem slotComb_bijOn {n m : ℕ} (hm : m < n) :
    Set.BijOn (slotComb m) (Set.Iio (2 ^ (n - 1)))
      {comb | comb < 2 ^ n ∧ comb.testBit m = false} := by
  have inverse : Set.InvOn (shapeSlot m) (slotComb m) (Set.Iio (2 ^ (n - 1)))
      {comb | comb < 2 ^ n ∧ comb.testBit m = false} :=
    ⟨fun slot _ => shapeSlot_slotComb m slot, fun _ mem => slotComb_shapeSlot mem.2⟩
  apply inverse.bijOn
  · intro slot inside
    exact ⟨slotComb_lt hm inside, testBit_slotComb_self m slot⟩
  · intro comb mem
    exact shapeSlot_lt hm mem.1

/-- The combination with channel `m` at full too. -/
theorem testBit_withChannel (m comb j : ℕ) :
    (comb ||| 1 <<< m).testBit j = (comb.testBit j || decide (j = m)) := by
  rw [Nat.testBit_or, Nat.one_shiftLeft, Nat.testBit_two_pow]
  simp [eq_comm]

theorem shapeSlot_withChannel (m comb : ℕ) : shapeSlot m (comb ||| 1 <<< m) = shapeSlot m comb := by
  apply Nat.eq_of_testBit_eq
  intro j
  rw [testBit_shapeSlot, testBit_shapeSlot, testBit_withChannel]
  simp [otherChannel_ne]

theorem withChannel_lt {n m comb : ℕ} (hm : m < n) (h : comb < 2 ^ n) :
    comb ||| 1 <<< m < 2 ^ n := by
  rw [Nat.one_shiftLeft]
  exact Nat.or_lt_two_pow h (Nat.pow_lt_pow_right (by decide) hm)

theorem slotComb_withChannel {m comb : ℕ} (present : comb.testBit m = true) :
    slotComb m (shapeSlot m comb) ||| 1 <<< m = comb := by
  apply Nat.eq_of_testBit_eq
  intro j
  rw [testBit_withChannel, testBit_slotComb, testBit_shapeSlot]
  by_cases own : j = m
  · simp [own, present]
  · simp [own, otherChannel_otherPosition own]

/-- A sum over all combinations, taken slot by slot: every slot of channel `m`
stands for the combination without and the combination with that channel. -/
theorem sum_combinations {M : Type*} [AddCommMonoid M] {n m : ℕ} (hm : m < n) (f : ℕ → M) :
    ∑ comb ∈ Finset.range (2 ^ n), f comb =
      ∑ slot ∈ Finset.range (2 ^ (n - 1)),
        (f (slotComb m slot) + f (slotComb m slot ||| 1 <<< m)) := by
  rw [Finset.sum_add_distrib,
    ← Finset.sum_filter_not_add_sum_filter _ (fun c => c.testBit m = true)]
  congr 1
  · refine Finset.sum_nbij' (shapeSlot m) (slotComb m) ?_ ?_ ?_ ?_ ?_
    · intro c hc
      simp only [Finset.mem_filter, Finset.mem_range] at hc ⊢
      exact shapeSlot_lt hm hc.1
    · intro slot hslot
      simp only [Finset.mem_filter, Finset.mem_range] at hslot ⊢
      exact ⟨slotComb_lt hm hslot, by simp⟩
    · intro c hc
      exact slotComb_shapeSlot (by simpa using (Finset.mem_filter.mp hc).2)
    · intro slot _
      exact shapeSlot_slotComb m slot
    · intro c hc
      rw [slotComb_shapeSlot (by simpa using (Finset.mem_filter.mp hc).2)]
  · refine Finset.sum_nbij' (shapeSlot m) (fun slot => slotComb m slot ||| 1 <<< m) ?_ ?_ ?_ ?_ ?_
    · intro c hc
      simp only [Finset.mem_filter, Finset.mem_range] at hc ⊢
      exact shapeSlot_lt hm hc.1
    · intro slot hslot
      simp only [Finset.mem_filter, Finset.mem_range] at hslot ⊢
      exact ⟨withChannel_lt hm (slotComb_lt hm hslot), by simp⟩
    · intro c hc
      exact slotComb_withChannel (Finset.mem_filter.mp hc).2
    · intro slot _
      rw [shapeSlot_withChannel, shapeSlot_slotComb]
    · intro c hc
      rw [slotComb_withChannel (Finset.mem_filter.mp hc).2]

end InkModel
