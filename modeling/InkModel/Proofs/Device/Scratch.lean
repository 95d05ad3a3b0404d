import InkModel.Proofs.Device.Gradient

/-! # Tables that are written over

A fit writes the gradient of each point over the one before. Where the curve of a channel lacks
coefficients nothing is written, so the gradient is the same as in new tables only if zeros stand
there; and then zeros stand there again. So a whole run over points that starts with new tables
never sees what it wrote before.
-/

namespace InkModel

/-! The slopes of one curve. -/

section Curve

/-- What stands behind the coefficients of a curve stays there. -/
theorem TransferPartials.from_later (o : ℕ) (cs : List ℝ) {i : ℕ} (beyond : cs.length ≤ i)
    (t : TransferPartials ℝ) :
    (transferPartialsFrom o cs t).coefSlopes[o + i]? = t.coefSlopes[o + i]? := by
  induction cs generalizing o i t with
  | nil => rfl
  | cons c cs ih =>
      cases i with
      | zero => simp at beyond
      | succ i =>
          have shifted : o + (i + 1) = o + 1 + i := by omega
          have later : ¬o + 1 + i < o := by omega
          rw [transferPartialsFrom, shifted, ih (o + 1) (by simpa using beyond), addHarmonic_eq]
          dsimp only
          rw [Array.getElem?_setIfInBounds_ne (by omega), scaleBelow_getElem?]
          simp [later]

variable (table : Array ℝ) (cs : List ℝ) (x : ℝ)

theorem transferPartialsOver_size :
    (transferPartialsOver table cs x).coefSlopes.size = table.size :=
  TransferPartials.from_size 0 cs _

theorem transferPartialsOver_getElem? (i : ℕ) :
    (transferPartialsOver table cs x).coefSlopes[i]? =
      if i < cs.length ∧ i < table.size then some (curveCoefSlope 0 cs i x) else table[i]? := by
  by_cases room : i < table.size
  · by_cases own : i < cs.length
    · have written := TransferPartials.from_own 0 cs own ⟨x, Scalar.ofNat 1, table⟩ (by simpa)
      rw [Nat.zero_add] at written
      simp only [own, room, and_self, if_true]
      exact written
    · have kept := TransferPartials.from_later 0 cs (not_lt.mp own) ⟨x, Scalar.ofNat 1, table⟩
      rw [Nat.zero_add] at kept
      simp only [own, false_and, if_false]
      exact kept
  · have size := transferPartialsOver_size table cs x
    rw [Array.getElem?_eq_none (by omega)]
    simp [room]

end Curve

section Tables

variable {l : Layout} {b : Band ℝ} {old : Gradient ℝ}

/-- Tables that hold nothing but zeros where the gradient of a band is not written. -/
structure Gradient.IsClean (g : Gradient ℝ) (l : Layout) (b : Band ℝ) : Prop where
  fits : g.Fits l
  unwritten : ∀ k < l.channels, ∀ o, (b.curve l k).length ≤ o → o < l.order →
    (channelPart g.transfer l.order k)[o]? = some 0

theorem zero_isClean (l : Layout) (b : Band ℝ) : (Gradient.zero l : Gradient ℝ).IsClean l b where
  fits := zero_fits l
  unwritten := by
    intro k hk o _ inside
    have within : k * l.order + o < l.channels * l.order := by
      have : (k + 1) * l.order ≤ l.channels * l.order := Nat.mul_le_mul_right _ hk
      rw [Nat.succ_mul] at this
      omega
    simp [channelPart_getElem?, inside, Gradient.zero, Layout.transferCount, within,
      Scalar.real_zero]

theorem gradientOver_sizes (b : Band ℝ) (dev : Array ℝ) (sizes : old.Fits l) :
    (gradientOver l b dev old).Fits l := by
  obtain ⟨devSize, transferSize, shapeSize, primariesSize⟩ := sizes
  have part {table : Array ℝ} {size k : ℕ} (total : table.size = l.channels * size)
      (hk : k < l.channels) : (channelPart table size k).size = size := channelPart_size total hk
  refine ⟨?_, ?_, ?_, ?_⟩
  · simpa [gradientOver, ForwardPass.writeOver] using devSize
  · simp only [gradientOver, ForwardPass.writeOver]
    rw [Array.zip_map', Array.flatMap_map]
    refine flatMap_range_size fun k hk => ?_
    simp [transferPartialsOver_size, part transferSize hk]
  · refine flatMap_range_size fun m hm => ?_
    simp [part shapeSize hm]
  · simpa [gradientOver, ForwardPass.writeOver] using primariesSize

/-- What is written over clean tables is the gradient, as if they were new. -/
theorem gradientOver_clean (dev : Array ℝ) (clean : old.IsClean l b) :
    gradientOver l b dev old = gradient l b dev := by
  have new := zero_isClean l b
  obtain ⟨devSize, transferSize, shapeSize, primariesSize⟩ := clean.fits
  obtain ⟨newDev, newTransfer, newShape, newPrimaries⟩ := new.fits
  unfold gradient
  refine Gradient.ext rfl ?_ ?_ ?_ ?_
  · apply Array.ext (by simp [gradientOver, ForwardPass.writeOver, devSize, newDev])
    intro k h₁ h₂
    have hk : k < l.channels := by simpa [gradientOver, ForwardPass.writeOver, newDev] using h₂
    simp [gradientOver, ForwardPass.writeOver, transferPartialsOver_slope, hk]
  · simp only [gradientOver, ForwardPass.writeOver]
    rw [Array.zip_map', Array.zip_map', Array.flatMap_map, Array.flatMap_map]
    refine flatMap_range_congr fun k hk => ?_
    have size : (channelPart old.transfer l.order k).size = l.order :=
      channelPart_size transferSize hk
    have newSize : (channelPart (Gradient.zero l : Gradient ℝ).transfer l.order k).size = l.order :=
      channelPart_size newTransfer hk
    congr 1
    apply Array.ext_getElem?
    intro o
    rw [transferPartialsOver_getElem?, transferPartialsOver_getElem?, size, newSize]
    by_cases inside : o < l.order
    · by_cases own : o < (b.curve l k).length
      · simp [own, inside]
      · have beyond := not_lt.mp own
        rw [clean.unwritten k hk o beyond inside, new.unwritten k hk o beyond inside]
    · rw [Array.getElem?_eq_none (by omega), Array.getElem?_eq_none (by omega)]
  · refine flatMap_range_congr fun m hm => ?_
    dsimp only
    rw [mapIdx_entries, mapIdx_entries, channelPart_size shapeSize hm, channelPart_size newShape hm]
  · simp only [gradientOver, ForwardPass.writeOver]
    rw [mapIdx_entries, mapIdx_entries, primariesSize, newPrimaries]

/-- A gradient is clean itself. -/
theorem gradient_isClean (l : Layout) (b : Band ℝ) (dev : Array ℝ) :
    (gradient l b dev).IsClean l b where
  fits := gradientOver_sizes b dev (zero_fits l)
  unwritten := by
    intro k hk o beyond inside
    have new := zero_isClean l b
    have total : (Gradient.zero l : Gradient ℝ).transfer.size = l.channels * l.order := new.fits.2.1
    have sizes (m : ℕ) (hm : m < l.channels) :
        ((transferPartialsOver (channelPart (Gradient.zero l : Gradient ℝ).transfer l.order m)
          (b.curve l m) (channelValue dev m)).coefSlopes.map
            (· * (forwardPass l b dev).transferredSlope l b m)).size = l.order := by
      rw [Array.size_map, transferPartialsOver_size, channelPart_size total hm]
    rw [channelPart_getElem?, if_pos inside]
    simp only [gradient, gradientOver, ForwardPass.writeOver]
    rw [Array.zip_map', Array.flatMap_map]
    refine (flatMap_range_getElem? sizes hk inside).trans ?_
    rw [Array.getElem?_map, transferPartialsOver_getElem?, if_neg (by omega),
      new.unwritten k hk o beyond inside]
    simp

end Tables

end InkModel
