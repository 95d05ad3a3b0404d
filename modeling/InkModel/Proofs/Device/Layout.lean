import InkModel.Device.Layout
import Mathlib

/-! # Flat tables by channel

A flat table with the same number of entries for every channel is the
concatenation of its parts, and a change of one entry is a change of one part.
-/

namespace InkModel

variable {α β : Type}

/-- With ink interaction a channel has a slot for half of the combinations. -/
theorem slotsPerChannel_eq {l : Layout} {m : ℕ} (hm : m < l.channels) (shaped : l.shaped = true) :
    l.slotsPerChannel = 2 ^ (l.channels - 1) := by
  rw [Layout.slotsPerChannel, if_pos shaped, Layout.combinations]
  conv_lhs => rw [← Nat.sub_add_cancel (Nat.one_le_of_lt hm), pow_succ]
  exact Nat.mul_div_cancel _ (by decide)

section ChannelPart

variable {table : Array α} {size m n i : ℕ}

theorem channelPart_getElem? (table : Array α) (size m i : ℕ) :
    (channelPart table size m)[i]? = if i < size then table[m * size + i]? else none := by
  have width : (m + 1) * size = m * size + size := by ring
  rw [channelPart, Array.getElem?_extract, width]
  by_cases inside : i < size
  · rw [if_pos inside]
    split
    · rfl
    · rw [Array.getElem?_eq_none (by omega)]
  · rw [if_neg inside, if_neg (by omega)]

theorem channelPart_size (total : table.size = n * size) (hm : m < n) :
    (channelPart table size m).size = size := by
  have fits : (m + 1) * size ≤ n * size := Nat.mul_le_mul_right size hm
  have width : (m + 1) * size = m * size + size := by ring
  rw [channelPart, Array.size_extract]
  omega

theorem lt_channelPart_size_iff :
    i < (channelPart table size m).size ↔ i < size ∧ m * size + i < table.size := by
  have width : (m + 1) * size = m * size + size := by ring
  rw [channelPart, Array.size_extract, width]
  omega

theorem channelPart_getElem (hi : i < size) (h : m * size + i < table.size)
    (inside : i < (channelPart table size m).size) :
    (channelPart table size m)[i] = table[m * size + i] := by
  have := channelPart_getElem? table size m i
  rw [if_pos hi, Array.getElem?_eq_getElem h, Array.getElem?_eq_some_iff] at this
  exact this.2

theorem setIfInBounds_getElem_self {table : Array α} {i : ℕ} (h : i < table.size) :
    table.setIfInBounds i table[i] = table := by
  rw [Array.setIfInBounds, dif_pos h, Array.set_getElem_self]

theorem channelPart_set_own (hi : i < size) (x : α) :
    channelPart (table.setIfInBounds (m * size + i) x) size m =
      (channelPart table size m).setIfInBounds i x := by
  apply Array.ext_getElem?
  intro j
  rw [channelPart_getElem?, Array.getElem?_setIfInBounds, Array.getElem?_setIfInBounds,
    channelPart_getElem?]
  by_cases own : i = j
  · subst own
    simp only [hi, ↓reduceIte, lt_channelPart_size_iff, true_and]
  · simp [own]

theorem channelPart_set_other {m' : ℕ} (other : m' ≠ m) (hi : i < size) (x : α) :
    channelPart (table.setIfInBounds (m * size + i) x) size m' = channelPart table size m' := by
  apply Array.ext_getElem?
  intro j
  rw [channelPart_getElem?, channelPart_getElem?]
  split
  · have apart : m * size + i ≠ m' * size + j := by
      intro same
      have := congrArg (· / size) same
      have pos : 0 < size := by omega
      simp only [Nat.mul_comm _ size, Nat.mul_add_div pos, Nat.div_eq_of_lt hi,
        Nat.div_eq_of_lt ‹j < size›, Nat.add_zero] at this
      exact other this.symm
    rw [Array.getElem?_setIfInBounds_ne apart]
  · rfl

end ChannelPart

theorem flatMap_range_size {n size : ℕ} {f : ℕ → Array α} (sizes : ∀ m < n, (f m).size = size) :
    ((Array.range n).flatMap f).size = n * size := by
  induction n with
  | zero =>
      rw [Nat.zero_mul]
      rfl
  | succ n ih =>
      rw [Array.range_succ, Array.flatMap_append, Array.flatMap_singleton, Array.size_append,
        sizes n (Nat.lt_succ_self n), ih fun m hm => sizes m (Nat.lt_succ_of_lt hm), Nat.succ_mul]

/-- The concatenation of parts of one size, read at an entry of part `m`. -/
theorem flatMap_range_getElem? {n size m i : ℕ} {f : ℕ → Array α}
    (sizes : ∀ m < n, (f m).size = size) (hm : m < n) (hi : i < size) :
    ((Array.range n).flatMap f)[m * size + i]? = (f m)[i]? := by
  induction n with
  | zero => exact absurd hm (Nat.not_lt_zero m)
  | succ n ih =>
      have sizes' : ∀ m < n, (f m).size = size := fun m hm => sizes m (Nat.lt_succ_of_lt hm)
      have before := flatMap_range_size sizes'
      rw [Array.range_succ, Array.flatMap_append, Array.flatMap_singleton]
      rcases Nat.lt_succ_iff_lt_or_eq.mp hm with earlier | rfl
      · have inside : m * size + i < n * size := by
          calc m * size + i < m * size + size := by omega
            _ = (m + 1) * size := by ring
            _ ≤ n * size := Nat.mul_le_mul_right size earlier
        rw [Array.getElem?_append_left (by omega), ih sizes' earlier]
      · rw [Array.getElem?_append_right (by omega), before, Nat.add_sub_cancel_left]

end InkModel
