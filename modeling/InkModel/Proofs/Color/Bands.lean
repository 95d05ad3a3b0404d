import InkModel.Proofs.Color.Conversion
import InkModel.Proofs.Device.Bias

/-! # Spectra as curves

A wavelength has a place among the bands, in steps from the first one and confined to the layout.
Between two bands the value of a spectrum is linear in the place, and at a band both segments give
the band value. So the values make one continuous curve: a sum of ramps, each of which rises by the
difference of two neighbouring bands.
-/

namespace InkModel

/-! Bands and their wavelengths. -/

section Bands

variable {s : SpectralShape ℝ}

theorem wavelength_eq (s : SpectralShape ℝ) (i : ℕ) : s.wavelength i = s.startNm + s.step * i := rfl

theorem wavelength_zero (s : SpectralShape ℝ) : s.wavelength 0 = s.startNm := by
  rw [wavelength_eq, Nat.cast_zero, mul_zero, add_zero]

theorem wavelength_last (two : 2 ≤ s.bands) : s.wavelength (s.bands - 1) = s.endNm := by
  have last : (0 : ℝ) < ((s.bands - 1 : ℕ) : ℝ) := Nat.cast_pos.mpr (by omega)
  have whole : s.step * ((s.bands - 1 : ℕ) : ℝ) = s.endNm - s.startNm :=
    div_mul_cancel₀ _ last.ne'
  rw [wavelength_eq, whole]
  ring

theorem wavelength_strictMono (spaced : 0 < s.step) : StrictMono s.wavelength := by
  intro i j less
  have less : (i : ℝ) < j := Nat.cast_lt.mpr less
  rw [wavelength_eq, wavelength_eq]
  linarith [mul_lt_mul_of_pos_left less spaced]

theorem indexNearest_wavelength (two : 2 ≤ s.bands) (ordered : s.startNm < s.endNm) {i : ℕ}
    (inside : i < s.bands) : s.indexNearest (s.wavelength i) = i := by
  have nearest := (indexNearest_isNearest two ordered (s.wavelength i)).nearest i inside
  rw [sub_self, abs_zero] at nearest
  have same := sub_eq_zero.mp (abs_eq_zero.mp (nearest.antisymm (abs_nonneg _)))
  exact ((wavelength_strictMono (step_pos two ordered)).injective same).symm

end Bands

/-! The place of a wavelength. -/

section Place

/-- The place of a wavelength in steps from the first band, confined to the layout. -/
noncomputable def SpectralShape.place (s : SpectralShape ℝ) (nm : ℝ) : ℝ :=
  confine ((nm - s.startNm) / s.step) 0 s.lastIndex

theorem confine_eq {x lo hi : ℝ} (ordered : lo ≤ hi) : confine x lo hi = max lo (min x hi) := by
  unfold confine
  split
  · rename_i below
    rw [min_eq_left (below.le.trans ordered), max_eq_left below.le]
  · rename_i above
    split
    · rename_i beyond
      rw [min_eq_right beyond.le, max_eq_right ordered]
    · rename_i within
      rw [min_eq_left (not_lt.mp within), max_eq_right (not_lt.mp above)]

variable (s : SpectralShape ℝ)

theorem lastIndex_nonneg : 0 ≤ s.lastIndex := Nat.cast_nonneg (s.bands - 1)

theorem place_mem (nm : ℝ) : 0 ≤ s.place nm ∧ s.place nm ≤ s.lastIndex :=
  confine_mem (lastIndex_nonneg s)

theorem place_eq (nm : ℝ) :
    s.place nm = max 0 (min ((nm - s.startNm) / s.step) s.lastIndex) :=
  confine_eq (lastIndex_nonneg s)

theorem continuous_place : Continuous s.place := by
  rw [funext (place_eq s)]
  fun_prop

variable {s} (two : 2 ≤ s.bands) (ordered : s.startNm < s.endNm)
include two ordered

theorem place_mono : Monotone s.place := by
  intro nm nm' le
  have spaced := step_pos two ordered
  rw [place_eq, place_eq]
  gcongr

theorem place_wavelength {i : ℕ} (inside : i < s.bands) : s.place (s.wavelength i) = i := by
  have spaced := step_pos two ordered
  have steps : (s.wavelength i - s.startNm) / s.step = i := by
    rw [wavelength_eq, add_sub_cancel_left, mul_div_cancel_left₀ _ spaced.ne']
  have within : (i : ℝ) ≤ s.lastIndex := Nat.cast_le.mpr (Nat.le_sub_one_of_lt inside)
  rw [place_eq, steps, min_eq_left within, max_eq_right (Nat.cast_nonneg i)]

theorem place_before {nm : ℝ} (before : nm ≤ s.startNm) : s.place nm = (0 : ℕ) := by
  have first := place_wavelength two ordered (i := 0) (by omega)
  rw [wavelength_zero] at first
  have below := place_mono two ordered before
  have above := (place_mem s nm).1
  rw [Nat.cast_zero] at first ⊢
  linarith

theorem place_after {nm : ℝ} (after : s.endNm ≤ nm) : s.place nm = (s.bands - 1 : ℕ) := by
  have last := place_wavelength two ordered (i := s.bands - 1) (by omega)
  rw [wavelength_last two] at last
  have below := (place_mem s nm).2
  have above := place_mono two ordered after
  have index : s.lastIndex = ((s.bands - 1 : ℕ) : ℝ) := rfl
  linarith

end Place

/-! Ramps. -/

section Ramps

open Finset

/-- A curve through the values of `f` at the first `k + 1` whole places. -/
noncomputable def ramps (f : ℕ → ℝ) (k : ℕ) (place : ℝ) : ℝ :=
  f 0 + ∑ j ∈ range k, (f (j + 1) - f j) * saturate (place - j)

theorem continuous_saturate : Continuous (saturate : ℝ → ℝ) := by
  change Continuous fun x : ℝ =>
    (x ⊔ @OfNat.ofNat ℝ 0 Scalar.instOfNat) ⊓ @OfNat.ofNat ℝ 1 Scalar.instOfNat
  fun_prop

theorem continuous_ramps (f : ℕ → ℝ) (k : ℕ) : Continuous (ramps f k) := by
  unfold ramps
  have ramp := continuous_saturate
  fun_prop

theorem ramps_succ (f : ℕ → ℝ) (k : ℕ) (place : ℝ) :
    ramps f (k + 1) place = ramps f k place + (f (k + 1) - f k) * saturate (place - k) := by
  rw [ramps, ramps, sum_range_succ, add_assoc]

variable {f : ℕ → ℝ} {place : ℝ}

theorem lerp_mem_uIcc {a b t : ℝ} (h : t ∈ Set.Icc (0 : ℝ) 1) : lerp a b t ∈ Set.uIcc a b := by
  rw [← segment_eq_uIcc, segment_eq_image']
  refine ⟨t, h, ?_⟩
  change a + t * (b - a) = a + (b - a) * t
  rw [mul_comm]

theorem saturate_of_le {x : ℝ} (h : x ≤ 0) : saturate x = 0 := by
  have below := saturate_mono h
  rw [saturate_of_mem ⟨le_rfl, zero_le_one⟩] at below
  exact below.antisymm (saturate_mem x).1

theorem saturate_of_ge {x : ℝ} (h : 1 ≤ x) : saturate x = 1 := by
  have above := saturate_mono h
  rw [saturate_of_mem ⟨zero_le_one, le_rfl⟩] at above
  exact (saturate_mem x).2.antisymm above

/-- Behind its last place a sum of ramps has the last value. -/
theorem ramps_behind {k : ℕ} (behind : k ≤ place) : ramps f k place = f k := by
  induction k with
  | zero => simp [ramps]
  | succ k ih =>
      push_cast at behind
      rw [ramps_succ, ih (by linarith), saturate_of_ge (by linarith)]
      ring

/-- Only the ramp of a segment itself is under way on it: those before it are at their ends, and
those behind it have not begun. -/
theorem ramps_segment {i k : ℕ} (inside : i + 1 ≤ k) (lower : i ≤ place) (upper : place ≤ i + 1) :
    ramps f k place = lerp (f i) (f (i + 1)) (place - i) := by
  induction k, inside using Nat.le_induction with
  | base =>
      rw [ramps_succ, ramps_behind lower, saturate_of_mem ⟨by linarith, by linarith⟩, lerp]
  | succ k inside ih =>
      have later : (i : ℝ) + 1 ≤ k := by exact_mod_cast inside
      rw [ramps_succ, ih, saturate_of_le (by linarith)]
      ring

end Ramps

/-! The values of a spectrum. -/

section Values

variable {s : SpectralShape ℝ} {spectrum : Array ℝ}

theorem locate_snd (s : SpectralShape ℝ) (nm : ℝ) :
    (s.locate nm).2 = s.place nm - (s.locate nm).1 := by
  unfold SpectralShape.locate
  rw [Scalar.real_zero]
  rfl

variable (two : 2 ≤ s.bands)
include two

theorem sampled_eq_ramps (nm : ℝ) :
    sampled s spectrum nm = ramps (fun i => spectrum.getD i 0) (s.bands - 1) (s.place nm) := by
  have inside := locate_lt two nm
  obtain ⟨lower, upper⟩ := locate_fraction two nm
  rw [locate_snd] at lower upper
  have lower := sub_nonneg.mp lower
  have upper := sub_le_iff_le_add'.mp upper
  rw [sampled, locate_snd, Scalar.real_zero, ramps_segment (by omega) lower upper]

theorem continuous_sampled : Continuous (sampled s spectrum) := by
  rw [funext (sampled_eq_ramps two)]
  exact (continuous_ramps _ _).comp (continuous_place s)

theorem sampled_at_place {nm : ℝ} {i : ℕ} (inside : i < s.bands) (here : s.place nm = i) :
    sampled s spectrum nm = spectrum.getD i 0 := by
  rw [sampled_eq_ramps two, here]
  rcases Nat.lt_or_ge i (s.bands - 1) with before | last
  · rw [ramps_segment before le_rfl (by linarith), sub_self, lerp, mul_zero, add_zero]
  · obtain rfl : i = s.bands - 1 := by omega
    exact ramps_behind le_rfl

variable (ordered : s.startNm < s.endNm)
include ordered

theorem sampled_between {nm : ℝ} {i : ℕ} (inside : i + 1 < s.bands)
    (between : nm ∈ Set.Icc (s.wavelength i) (s.wavelength (i + 1))) :
    sampled s spectrum nm ∈ Set.uIcc (spectrum.getD i 0) (spectrum.getD (i + 1) 0) := by
  have lower := place_mono two ordered between.1
  have upper := place_mono two ordered between.2
  rw [place_wavelength two ordered (by omega)] at lower
  rw [place_wavelength two ordered inside, Nat.cast_add_one] at upper
  rw [sampled_eq_ramps two, ramps_segment (by omega) lower upper]
  exact lerp_mem_uIcc ⟨sub_nonneg.mpr lower, sub_le_iff_le_add'.mpr upper⟩

end Values

/-- A curve through the values of a spectrum: continuous, between two bands never beyond their
values, and constant beyond the ends of the layout. -/
structure Interpolates (s : SpectralShape ℝ) (spectrum : Array ℝ) (curve : ℝ → ℝ) : Prop where
  continuous : Continuous curve
  band : ∀ i (inside : i < spectrum.size), curve (s.wavelength i) = spectrum[i]
  between : ∀ i (inside : i + 1 < spectrum.size),
    ∀ nm ∈ Set.Icc (s.wavelength i) (s.wavelength (i + 1)),
      curve nm ∈ Set.uIcc spectrum[i] spectrum[i + 1]
  before : ∀ nm ≤ s.startNm, spectrum[0]? = some (curve nm)
  after : ∀ nm ≥ s.endNm, spectrum[s.bands - 1]? = some (curve nm)

theorem sampled_interpolates {s : SpectralShape ℝ} {spectrum : Array ℝ} (two : 2 ≤ s.bands)
    (ordered : s.startNm < s.endNm) (size : spectrum.size = s.bands) :
    Interpolates s spectrum (sampled s spectrum) := by
  have entry {i : ℕ} (inside : i < spectrum.size) : spectrum.getD i 0 = spectrum[i] := by
    simp [Array.getD_eq_getD_getElem?, inside]
  have atEnd {nm : ℝ} {i : ℕ} (inside : i < spectrum.size) (here : s.place nm = i) :
      spectrum[i]? = some (sampled s spectrum nm) := by
    rw [sampled_at_place two (size ▸ inside) here, entry inside, Array.getElem?_eq_getElem inside]
  constructor
  case continuous => exact continuous_sampled two
  case band =>
    intro i inside
    have here := place_wavelength two ordered (size ▸ inside)
    rw [sampled_at_place two (size ▸ inside) here, entry inside]
  case between =>
    intro i inside nm between
    rw [← entry inside, ← entry (Nat.lt_of_succ_lt inside)]
    exact sampled_between two ordered (size ▸ inside) between
  case before =>
    intro nm before
    exact atEnd (by omega) (place_before two ordered before)
  case after =>
    intro nm after
    exact atEnd (by omega) (place_after two ordered after)

/-- In every layout the wavelengths of the bands ascend from its start to its end, the index of a
wavelength is that of a nearest band and the index of a band's wavelength is the band, and every
spectrum is a curve through its band values. -/
theorem sample_interpolates_bands {s : SpectralShape ℝ}
    (made : SpectralShape.make s.bands s.startNm s.endNm s.norm = .ok s) {spectrum : Array ℝ}
    (size : spectrum.size = s.bands) :
    (s.wavelength 0 = s.startNm ∧ s.wavelength (s.bands - 1) = s.endNm ∧
        StrictMono s.wavelength) ∧
      (∀ nm, IsNearestBand s nm (s.indexNearest nm)) ∧
      (∀ i < s.bands, s.indexNearest (s.wavelength i) = i) ∧
      ∃ curve, (∀ nm, s.sample? spectrum nm = some (curve nm)) ∧ Interpolates s spectrum curve := by
  have two := two_le_bands made
  have ordered := ordered_of_make made
  refine ⟨⟨wavelength_zero s, wavelength_last two, wavelength_strictMono (step_pos two ordered)⟩,
    indexNearest_isNearest two ordered, fun i inside => indexNearest_wavelength two ordered inside,
    sampled s spectrum, sample?_eq size two, sampled_interpolates two ordered size⟩

noncomputable def threeBands : SpectralShape ℝ := ⟨3, 400, 600, 1⟩

theorem threeBands_wavelength (i : ℕ) : threeBands.wavelength i = 400 + 100 * i := by
  have step : threeBands.step = 100 := by
    change (600 - 400) / ((2 : ℕ) : ℝ) = 100
    norm_num
  rw [wavelength_eq, step]
  rfl

theorem sample_interpolates_bands_threeBands :
    SpectralShape.make 3 400 600 1 = .ok threeBands ∧ threeBands.indexNearest 500 = 1 ∧
      threeBands.sample? #[0, 1, 3] 600 = some 3 ∧ threeBands.sample? #[0, 1, 3] 300 = some 0 ∧
      ∃ v, threeBands.sample? #[0, 1, 3] 550 = some v ∧ 1 ≤ v ∧ v ≤ 3 := by
  have made : SpectralShape.make 3 400 600 1 = .ok threeBands :=
    (make_eq_ok_iff (s := threeBands)).mpr
      ⟨by decide, by norm_num [threeBands], by norm_num [threeBands]⟩
  have size : (#[0, 1, 3] : Array ℝ).size = threeBands.bands := rfl
  obtain ⟨-, -, nearest, curve, values, interpolates⟩ := sample_interpolates_bands made size
  have middle := threeBands_wavelength 1
  have last := threeBands_wavelength 2
  norm_num at middle last
  refine ⟨made, middle ▸ nearest 1 (by decide), ?_, ?_, curve 550, values 550, ?_⟩
  · rw [values, ← last]
    exact congrArg some (interpolates.band 2 (by decide))
  · rw [values]
    exact (interpolates.before 300 (by norm_num [threeBands])).symm
  · have between := interpolates.between 1 (by decide) 550 (by norm_num [middle, last])
    rwa [Set.uIcc_of_le (by norm_num), Set.mem_Icc] at between

end InkModel
