import InkModel.Color.Spectrum
import InkModel.Proofs.Exact

/-! # Evenly spaced bands

The index of a wavelength is that of a band of the layout, and no other band lies nearer. The value
between two bands is linear in the spectrum, beyond the ends of the layout as well, and so is the
colour under a light source: it is the sum of the colours of single bands.
-/

namespace InkModel

/-! The nearest band. -/

section Nearest

theorem exists_round (x : ℝ) : ∃ z : ℤ, Scalar.round x = (z : ℝ) ∧ |x - z| ≤ 1 / 2 := by
  by_cases positive : 0 ≤ x
  · refine ⟨⌊x + 0.5⌋, if_pos positive, ?_⟩
    have below := Int.floor_le (x + 0.5)
    have above := Int.lt_floor_add_one (x + 0.5)
    rw [abs_le]
    constructor <;> linarith
  · refine ⟨⌈x - 0.5⌉, if_neg positive, ?_⟩
    have below := Int.le_ceil (x - 0.5)
    have above := Int.ceil_lt_add_one (x - 0.5)
    rw [abs_le]
    constructor <;> linarith

/-- Of the numbers up to `last`, the rounded and confined one is nearest. -/
theorem confine_round (x : ℝ) (last : ℕ) :
    ∃ k ≤ last, confine (Scalar.round x) 0 last = k ∧ ∀ j ≤ last, |x - k| ≤ |x - (j : ℝ)| := by
  obtain ⟨z, rounded, near⟩ := exists_round x
  obtain ⟨below, above⟩ := abs_le.mp near
  rw [rounded]
  have apart {j : ℕ} : (j : ℝ) - x ≤ |x - j| := abs_sub_comm x j ▸ le_abs_self _
  unfold confine
  split
  · rename_i negative
    have negative : (z : ℝ) ≤ -1 := by
      have : z < 0 := by exact_mod_cast negative
      exact_mod_cast Int.le_sub_one_of_lt this
    refine ⟨0, Nat.zero_le last, Nat.cast_zero.symm, fun j _ => ?_⟩
    have positive : (0 : ℝ) ≤ j := Nat.cast_nonneg j
    have here : |x - (0 : ℕ)| = -x := by
      rw [Nat.cast_zero, sub_zero, abs_of_neg (by linarith)]
    linarith [apart (j := j)]
  · rename_i nonneg
    obtain ⟨n, rfl⟩ := Int.eq_ofNat_of_zero_le (by exact_mod_cast not_lt.mp nonneg)
    split
    · rename_i beyond
      have beyond : last + 1 ≤ n := by exact_mod_cast beyond
      refine ⟨last, le_rfl, rfl, fun j inside => ?_⟩
      have inside : (j : ℝ) ≤ last := by exact_mod_cast inside
      have beyond : (last : ℝ) + 1 ≤ n := by exact_mod_cast beyond
      push_cast at above below
      rw [abs_of_pos (by linarith), abs_of_pos (by linarith)]
      linarith
    · rename_i within
      have within : n ≤ last := by exact_mod_cast not_lt.mp within
      refine ⟨n, within, Int.cast_natCast n, fun j _ => ?_⟩
      push_cast at near
      rcases eq_or_ne n j with rfl | other
      · exact le_rfl
      · -- two whole numbers are at least 1 apart
        have whole : (1 : ℝ) ≤ |(n : ℝ) - j| := by
          have : (1 : ℤ) ≤ |(n : ℤ) - j| := Int.one_le_abs (by omega)
          exact_mod_cast this
        have triangle := abs_sub_le (n : ℝ) x j
        rw [abs_sub_comm (n : ℝ) x] at triangle
        linarith

variable {s : SpectralShape ℝ}

theorem make_eq_ok_iff : SpectralShape.make s.bands s.startNm s.endNm s.norm = .ok s ↔
    2 ≤ s.bands ∧ s.startNm < s.endNm ∧ 0 < s.norm := by
  unfold SpectralShape.make
  rw [Scalar.real_zero]
  split_ifs <;> simp [*]
  omega

theorem two_le_bands (made : SpectralShape.make s.bands s.startNm s.endNm s.norm = .ok s) :
    2 ≤ s.bands :=
  (make_eq_ok_iff.mp made).1

theorem ordered_of_make (made : SpectralShape.make s.bands s.startNm s.endNm s.norm = .ok s) :
    s.startNm < s.endNm :=
  (make_eq_ok_iff.mp made).2.1

theorem norm_pos_of_make (made : SpectralShape.make s.bands s.startNm s.endNm s.norm = .ok s) :
    0 < s.norm :=
  (make_eq_ok_iff.mp made).2.2

theorem step_pos (two : 2 ≤ s.bands) (ordered : s.startNm < s.endNm) : 0 < s.step := by
  have last : 0 < s.lastIndex := Nat.cast_pos.mpr (by omega : 0 < s.bands - 1)
  exact div_pos (sub_pos.mpr ordered) last

/-- The distance of a wavelength from a band, as a multiple of the step. -/
theorem sub_wavelength (spaced : 0 < s.step) (nm : ℝ) (i : ℕ) :
    |nm - s.wavelength i| = s.step * |(nm - s.startNm) / s.step - i| := by
  have scaled : nm - s.wavelength i = s.step * ((nm - s.startNm) / s.step - i) := by
    change nm - (s.startNm + s.step * (i : ℝ)) = _
    field_simp
    ring
  rw [scaled, abs_mul, abs_of_pos spaced]

/-- Whether no band of a layout lies nearer to a wavelength than band `i`. -/
structure IsNearestBand (s : SpectralShape ℝ) (nm : ℝ) (i : ℕ) : Prop where
  inside : i < s.bands
  nearest : ∀ j < s.bands, |nm - s.wavelength i| ≤ |nm - s.wavelength j|

/-- The index of a wavelength, as a confined and rounded number of steps. -/
theorem indexNearest_eq (s : SpectralShape ℝ) (nm : ℝ) :
    ∃ k ≤ s.bands - 1, s.indexNearest nm = k ∧
      ∀ j ≤ s.bands - 1,
        |(nm - s.startNm) / s.step - k| ≤ |(nm - s.startNm) / s.step - (j : ℝ)| := by
  obtain ⟨k, within, confined, nearest⟩ :=
    confine_round ((nm - s.startNm) / s.step) (s.bands - 1)
  refine ⟨k, within, ?_, nearest⟩
  have last : s.lastIndex = ((s.bands - 1 : ℕ) : ℝ) := rfl
  rw [SpectralShape.indexNearest, Scalar.real_zero, last, confined, ← Int.cast_natCast,
    Scalar.real_trunc_intCast, Int.toNat_natCast]

theorem indexNearest_lt (positive : 0 < s.bands) (nm : ℝ) : s.indexNearest nm < s.bands := by
  obtain ⟨k, within, same, -⟩ := indexNearest_eq s nm
  omega

theorem indexNearest_isNearest (two : 2 ≤ s.bands) (ordered : s.startNm < s.endNm) (nm : ℝ) :
    IsNearestBand s nm (s.indexNearest nm) := by
  obtain ⟨k, within, same, nearest⟩ := indexNearest_eq s nm
  have spaced := step_pos two ordered
  refine ⟨by omega, fun j hj => ?_⟩
  rw [sub_wavelength spaced, sub_wavelength spaced, same]
  exact mul_le_mul_of_nonneg_left (nearest j (by omega)) spaced.le

end Nearest

/-! Values between bands. -/

section Sampled

variable {α : Type} [Scalar α] {s : SpectralShape α} {spectrum : Array α}

/-- The lower of the two bands around a wavelength is never the last one. -/
theorem locate_lt (two : 2 ≤ s.bands) (nm : α) : (s.locate nm).1 + 1 < s.bands := by
  have := Nat.min_le_right (Scalar.trunc (Scalar.floor
    (confine ((nm - s.startNm) / s.step) 0 s.lastIndex))).toNat (s.bands - 2)
  change min _ (s.bands - 2) + 1 < s.bands
  omega

/-- The value of a spectrum at a wavelength, between the bands around it. -/
def sampled (s : SpectralShape α) (spectrum : Array α) (nm : α) : α :=
  lerp (spectrum.getD (s.locate nm).1 0) (spectrum.getD ((s.locate nm).1 + 1) 0) (s.locate nm).2

theorem sample?_eq (size : spectrum.size = s.bands) (two : 2 ≤ s.bands) (nm : α) :
    s.sample? spectrum nm = some (sampled s spectrum nm) := by
  have inside := size ▸ locate_lt two nm
  simp only [SpectralShape.sample?, sampled, Array.getD_eq_getD_getElem?,
    Array.getElem?_eq_getElem inside, Array.getElem?_eq_getElem (Nat.lt_of_succ_lt inside),
    Option.getD_some]

end Sampled

/-! Spectra as sums of single bands. -/

section Linear

open Finset

/-- The spectrum of one band alone. -/
def singleBand {α : Type} [Scalar α] (n i : ℕ) : Array α :=
  (Array.replicate n 0).setIfInBounds i 1

theorem singleBand_size {α : Type} [Scalar α] (n i : ℕ) : (singleBand n i : Array α).size = n := by
  simp [singleBand]

theorem singleBand_getD {n i k : ℕ} (hk : k < n) :
    (singleBand n i : Array ℝ).getD k 0 = if i = k then 1 else 0 := by
  rw [singleBand, Scalar.real_zero, Scalar.real_one]
  simp [Array.getD_eq_getD_getElem?, Array.getElem_setIfInBounds, hk]

variable {s : SpectralShape ℝ} {spectrum : Array ℝ}

theorem entry_eq_sum {k : ℕ} (hk : k < spectrum.size) :
    spectrum.getD k 0 =
      ∑ i ∈ range spectrum.size, spectrum.getD i 0 * (singleBand spectrum.size i).getD k 0 := by
  simp [singleBand_getD hk, hk]

theorem sampled_eq_sum (size : spectrum.size = s.bands) (two : 2 ≤ s.bands) (nm : ℝ) :
    sampled s spectrum nm =
      ∑ i ∈ range s.bands, spectrum.getD i 0 * sampled s (singleBand s.bands i) nm := by
  have inside := size ▸ locate_lt two nm
  unfold sampled lerp
  rw [Scalar.real_zero, entry_eq_sum inside, entry_eq_sum (Nat.lt_of_succ_lt inside), size]
  rw [← sum_sub_distrib, sum_mul, ← sum_add_distrib]
  exact sum_congr rfl fun i _ => by ring

/-- One coordinate of the colour of a spectrum: its values from the `i`-th table wavelength on,
weighted. -/
noncomputable def weighed (s : SpectralShape ℝ) (spectrum : Array ℝ) (coord : Xyz ℝ → ℝ) :
    (i : ℕ) → List (Xyz ℝ) → ℝ
  | _, [] => 0
  | i, w :: ws =>
    sampled s spectrum (Scalar.ofNat (tableStart + tableStep * i)) / s.norm * coord w +
      weighed s spectrum coord (i + 1) ws

/-- The colour of a spectrum under a light source. -/
noncomputable def colorUnder (ill : Illuminant) (s : SpectralShape ℝ) (spectrum : Array ℝ) :
    Xyz ℝ :=
  ⟨weighed s spectrum Xyz.x 0 ill.weights, weighed s spectrum Xyz.y 0 ill.weights,
    weighed s spectrum Xyz.z 0 ill.weights⟩

variable (size : spectrum.size = s.bands) (two : 2 ≤ s.bands)
include size two

theorem integrateFrom_eq (ws : List (Xyz ℝ)) (i : ℕ) (acc : Xyz ℝ) :
    s.integrateFrom spectrum i acc ws =
      some ⟨acc.x + weighed s spectrum Xyz.x i ws, acc.y + weighed s spectrum Xyz.y i ws,
        acc.z + weighed s spectrum Xyz.z i ws⟩ := by
  induction ws generalizing i acc with
  | nil => simp [SpectralShape.integrateFrom, weighed]
  | cons w ws ih => simp [SpectralShape.integrateFrom, weighed, sample?_eq size two, ih, add_assoc]

theorem convert_eq (ill : Illuminant) :
    s.convert ill spectrum = .ok (colorUnder ill s spectrum) := by
  rw [SpectralShape.convert, if_neg (not_not.mpr size), integrateFrom_eq size two]
  simp [colorUnder, Scalar.real_zero]

/-- The sums over the table wavelengths and over the bands change places. -/
theorem weighed_eq_sum (coord : Xyz ℝ → ℝ) (ws : List (Xyz ℝ)) (i : ℕ) :
    weighed s spectrum coord i ws =
      ∑ j ∈ range s.bands, spectrum.getD j 0 * weighed s (singleBand s.bands j) coord i ws := by
  induction ws generalizing i with
  | nil => simp [weighed]
  | cons w ws ih =>
      simp only [weighed]
      rw [ih, sampled_eq_sum size two, sum_div, sum_mul, ← sum_add_distrib]
      exact sum_congr rfl fun j _ => by ring

end Linear

end InkModel
