import InkModel.Device.Forward
import InkModel.Proofs.Access
import InkModel.Proofs.Device.Layout

/-! # Accesses of the forward model

A band is evaluated with its accesses checked: the parts of its tables that belong to a channel, and
the buffers of channel values. When the tables fit the layout none of them lies outside.
-/

namespace InkModel

variable {α : Type} [Scalar α] {l : Layout} {b : Band α}

/-- The part of a flat table that belongs to channel `m`, if the table has it. -/
def channelPart? {α : Type} (table : Array α) (size m : ℕ) : Option (Array α) :=
  if (m + 1) * size ≤ table.size then some (channelPart table size m) else none

/-- The transferred channel values, in a buffer with room for all channels that a device may
have. -/
def transferred? (l : Layout) (b : Band α) (dev : Array α) : Option (List α) :=
  (List.range l.channels).mapM fun m =>
    if m < maxInks then
      (channelPart? b.transfer l.order m).map fun curve =>
        transfer curve.toList (channelValue dev m)
    else none

def warped? (l : Layout) (b : Band α) (tv : List α) : Option (List α) :=
  if l.shaped then
    (List.range tv.length).mapM fun m =>
      tv[m]?.bind fun t => (channelPart? b.shape l.slotsPerChannel m).map fun slots =>
        rationalBias (blend slots (tv.eraseIdx m)) t
  else some tv

def evaluate? (l : Layout) (b : Band α) (dev : Array α) : Option α :=
  (transferred? l b dev).bind fun tv => (warped? l b tv).map (blend b.primaries)

theorem channelPart?_eq {α : Type} {table : Array α} {n size m : ℕ}
    (total : table.size = n * size) (hm : m < n) :
    channelPart? table size m = some (channelPart table size m) := by
  apply if_pos
  rw [total]
  exact Nat.mul_le_mul_right size hm

theorem evaluate?_eq (fits : b.Fits l) (few : l.channels ≤ maxInks) (dev : Array α) :
    evaluate? l b dev = some (evaluate l b dev) := by
  have curves : transferred? l b dev = some (transferred l b dev) := by
    refine mapM_eq_some_map fun m mem => ?_
    have hm : m < l.channels := List.mem_range.mp mem
    rw [if_pos (hm.trans_le few), channelPart?_eq fits.1 hm]
    rfl
  have warps : warped? l b (transferred l b dev) = some (warped l b (transferred l b dev)) := by
    have channels : (transferred l b dev).length = l.channels := by simp [transferred]
    unfold warped? warped
    by_cases shaped : l.shaped
    · rw [if_pos shaped, if_pos shaped]
      have own : ∀ m ∈ List.range (transferred l b dev).length,
          ((transferred l b dev)[m]?.bind fun t =>
            (channelPart? b.shape l.slotsPerChannel m).map fun slots =>
              rationalBias (blend slots ((transferred l b dev).eraseIdx m)) t) =
            some (rationalBias (shapeStrength l b (transferred l b dev) m)
              ((transferred l b dev).getD m 0)) := by
        intro m mem
        have hm : m < (transferred l b dev).length := List.mem_range.mp mem
        rw [List.getElem?_eq_getElem hm, channelPart?_eq fits.2.1 (channels ▸ hm),
          List.getD_eq_getElem _ _ hm]
        rfl
      rw [mapM_eq_some_map own]
      congr 1
      apply List.ext_getElem (by simp)
      intro m h₁ h₂
      have hm : m < (transferred l b dev).length := by simpa using h₂
      simp [List.getElem?_eq_getElem hm]
    · rw [if_neg shaped, if_neg shaped]
  rw [evaluate?, curves, Option.bind_some, warps]
  rfl

end InkModel
