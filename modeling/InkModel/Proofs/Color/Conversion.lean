import InkModel.Proofs.Color.Spectrum

/-! # The colours of spectra under a light

A light of positive powers gives every wavelength of the table a weight that is not negative, and
the weights of the luminance add up to 1. The value of a spectrum at a wavelength lies between two
bands of it, also beyond the ends of the layout. So the conversion keeps the order of spectra, and a
spectrum of one value has a colour that does not depend on its layout; the bounds of the luminance
follow from the two.
-/

namespace InkModel

/-! Between two bands. -/

section Between

theorem confine_mem {x lo hi : ℝ} (ordered : lo ≤ hi) :
    lo ≤ confine x lo hi ∧ confine x lo hi ≤ hi := by
  unfold confine
  split
  · exact ⟨le_rfl, ordered⟩
  · split
    · exact ⟨ordered, le_rfl⟩
    · exact ⟨not_lt.mp ‹_›, not_lt.mp ‹_›⟩

variable {s : SpectralShape ℝ}

/-- The whole steps up to a place that is not before the first band. -/
theorem whole_steps {pos : ℝ} (nonneg : 0 ≤ pos) :
    ((Scalar.trunc (Scalar.floor pos)).toNat : ℝ) = ⌊pos⌋ := by
  have whole : Scalar.trunc (Scalar.floor pos) = ⌊pos⌋ := Scalar.real_trunc_intCast ⌊pos⌋
  rw [whole]
  exact_mod_cast Int.toNat_of_nonneg (Int.floor_nonneg.mpr nonneg)

/-- A wavelength lies between two bands, and beyond the ends of the layout on the end band. -/
theorem locate_fraction (two : 2 ≤ s.bands) (nm : ℝ) :
    0 ≤ (s.locate nm).2 ∧ (s.locate nm).2 ≤ 1 := by
  have last : s.lastIndex = ((s.bands - 2 : ℕ) : ℝ) + 1 := by
    have : s.bands - 1 = s.bands - 2 + 1 := by omega
    change ((s.bands - 1 : ℕ) : ℝ) = _
    rw [this, Nat.cast_succ]
  have zero : (0 : ℝ) ≤ s.lastIndex := by
    rw [last]
    positivity
  obtain ⟨nonneg, inside⟩ := confine_mem (x := (nm - s.startNm) / s.step) zero
  have steps := whole_steps nonneg
  have below := Int.floor_le (confine ((nm - s.startNm) / s.step) 0 s.lastIndex)
  have above := Int.lt_floor_add_one (confine ((nm - s.startNm) / s.step) 0 s.lastIndex)
  simp only [SpectralShape.locate, Scalar.real_zero]
  generalize confine ((nm - s.startNm) / s.step) 0 s.lastIndex = pos at *
  generalize (Scalar.trunc (Scalar.floor pos)).toNat = whole at *
  change 0 ≤ pos - ((min whole (s.bands - 2) : ℕ) : ℝ) ∧
    pos - ((min whole (s.bands - 2) : ℕ) : ℝ) ≤ 1
  rcases le_total whole (s.bands - 2) with fits | beyond
  · rw [min_eq_left fits]
    constructor <;> linarith
  · -- only the place of the last band itself has more whole steps
    have : ((s.bands - 2 : ℕ) : ℝ) ≤ whole := by exact_mod_cast beyond
    rw [min_eq_right beyond]
    constructor <;> linarith

/-- One spectrum is nowhere above another. -/
def Below (bands : ℕ) (dark bright : Array ℝ) : Prop :=
  ∀ i < bands, dark.getD i 0 ≤ bright.getD i 0

theorem sampled_le (two : 2 ≤ s.bands) {dark bright : Array ℝ} (below : Below s.bands dark bright)
    (nm : ℝ) : sampled s dark nm ≤ sampled s bright nm := by
  have inside := locate_lt two nm
  have lower := below _ (Nat.lt_of_succ_lt inside)
  have upper := below _ inside
  obtain ⟨nonneg, le_one⟩ := locate_fraction two nm
  simp only [sampled, lerp, Scalar.real_zero]
  have rest : 0 ≤ 1 - (s.locate nm).2 := sub_nonneg.mpr le_one
  linarith [mul_le_mul_of_nonneg_left lower rest, mul_le_mul_of_nonneg_left upper nonneg]

theorem sampled_replicate (two : 2 ≤ s.bands) (v nm : ℝ) :
    sampled s (Array.replicate s.bands v) nm = v := by
  have inside := locate_lt two nm
  simp [sampled, lerp, Array.getD_eq_getD_getElem?, inside, Nat.lt_of_succ_lt inside]

end Between

/-! The weights of a light. -/

section Light

/-- Positive powers, one for each wavelength of the table. -/
structure IsLight (powers : List ℝ) : Prop where
  length : powers.length = observerTable.length
  positive : ∀ p ∈ powers, 0 < p

/-- The responses of the observer to a light of the given powers. -/
noncomputable def responses (powers : List ℝ) : List (Xyz ℝ) :=
  List.zipWith (fun (x, y, z) (p : ℝ) =>
    (⟨Scalar.ofScientific x true 6 * p, Scalar.ofScientific y true 6 * p,
      Scalar.ofScientific z true 6 * p⟩ : Xyz ℝ)) observerTable powers

/-- The responses to a light, scaled so that their luminance adds up to 1. -/
noncomputable def lightWeights (powers : List ℝ) : List (Xyz ℝ) :=
  let k := Scalar.sum ((responses powers).map Xyz.y)
  (responses powers).map fun w => ⟨w.x / k, w.y / k, w.z / k⟩

theorem weights_eq (ill : Illuminant) :
    (ill.weights : List (Xyz ℝ)) = lightWeights ill.powers := rfl

theorem ofScientific_eq (m e : ℕ) : (Scalar.ofScientific m true e : ℝ) = m / 10 ^ e := by
  change (OfScientific.ofScientific m true e : ℝ) = m / 10 ^ e
  simpa using NNRatCast.ofScientific_eq_ite (K := ℝ) m true e

theorem ofScientific_nonneg (m e : ℕ) : 0 ≤ (Scalar.ofScientific m true e : ℝ) := by
  rw [ofScientific_eq]
  positivity

theorem ofScientific_pos {m : ℕ} (positive : 0 < m) (e : ℕ) :
    0 < (Scalar.ofScientific m true e : ℝ) := by
  rw [ofScientific_eq]
  positivity

variable {powers : List ℝ}

/-- The observer sees something at every wavelength of the table. -/
theorem observerTable_seen : ∀ entry ∈ observerTable, 0 < entry.2.1 := by decide

theorem mem_responses {w : Xyz ℝ} (mem : w ∈ responses powers) :
    ∃ entry ∈ observerTable, ∃ p ∈ powers, w = ⟨Scalar.ofScientific entry.1 true 6 * p,
      Scalar.ofScientific entry.2.1 true 6 * p, Scalar.ofScientific entry.2.2 true 6 * p⟩ := by
  obtain ⟨i, inside, rfl⟩ := List.mem_iff_getElem.mp mem
  simp only [responses, List.length_zipWith, lt_min_iff] at inside
  exact ⟨observerTable[i], List.getElem_mem inside.1, powers[i], List.getElem_mem inside.2,
    by simp [responses]⟩

namespace IsLight

variable (light : IsLight powers)
include light

theorem responses_nonneg {w : Xyz ℝ} (mem : w ∈ responses powers) :
    0 ≤ w.x ∧ 0 < w.y ∧ 0 ≤ w.z := by
  obtain ⟨entry, seen, p, power, rfl⟩ := mem_responses mem
  have power := light.positive p power
  exact ⟨mul_nonneg (ofScientific_nonneg _ _) power.le,
    mul_pos (ofScientific_pos (observerTable_seen entry seen) _) power,
    mul_nonneg (ofScientific_nonneg _ _) power.le⟩

theorem luminance_pos : 0 < Scalar.sum ((responses powers).map Xyz.y) := by
  rw [Scalar.real_sum]
  refine List.sum_pos _ ?_ ?_
  · simpa using fun w mem => (light.responses_nonneg mem).2.1
  · have count : (responses powers).length = observerTable.length := by
      simp [responses, light.length]
    intro empty
    rw [List.map_eq_nil_iff.mp empty] at count
    cases count

theorem weights_nonneg {w : Xyz ℝ} (mem : w ∈ lightWeights powers) :
    0 ≤ w.x ∧ 0 ≤ w.y ∧ 0 ≤ w.z := by
  have total := light.luminance_pos
  obtain ⟨raw, response, rfl⟩ := List.mem_map.mp mem
  obtain ⟨x, y, z⟩ := light.responses_nonneg response
  exact ⟨div_nonneg x total.le, div_nonneg y.le total.le, div_nonneg z total.le⟩

theorem sum_luminances : ((lightWeights powers).map Xyz.y).sum = 1 := by
  have total := light.luminance_pos
  simp only [lightWeights, List.map_map, Function.comp_def, div_eq_mul_inv]
  rw [List.sum_map_mul_right, ← Scalar.real_sum, mul_inv_cancel₀ total.ne']

end IsLight

/-! The light sources. -/

theorem powFrom_pos {acc base : ℝ} (hacc : 0 < acc) (hbase : 0 < base) (n : ℕ) :
    0 < Scalar.powFrom acc base n := by
  induction n using Nat.strong_induction_on generalizing acc base with
  | _ n ih =>
      have next : 0 < (if n % 2 = 1 then acc * base else acc) := by
        split
        · exact mul_pos hacc hbase
        · exact hacc
      rw [Scalar.powFrom]
      split
      · exact next
      · exact ih (n / 2) (by omega) next (mul_pos hbase hbase)

/-- A black body radiates at every wavelength. -/
theorem incandescent_pos {nm : ℝ} (positive : 0 < nm) : 0 < Illuminant.incandescent nm := by
  have constant : (0 : ℝ) < Illuminant.radiationConstant := by
    change (0 : ℝ) < 1.435e7
    norm_num
  have body {nm : ℝ} (positive : 0 < nm) :
      0 < Real.exp (Illuminant.radiationConstant / (2856 * nm)) - 1 := by
    rw [sub_pos, Real.one_lt_exp_iff]
    positivity
  have power : 0 < Scalar.pow (560 / nm) 5 :=
    powFrom_pos (by simp [Scalar.real_one]) (by positivity) 5
  have numerator := body (show (0 : ℝ) < 560 by norm_num)
  have denominator := body positive
  simp only [Illuminant.incandescent, Scalar.real_one]
  exact div_pos (mul_pos (mul_pos (by norm_num) power) numerator) denominator

theorem isLight_powers (ill : Illuminant) : IsLight ill.powers := by
  cases ill with
  | d50 =>
      refine ⟨rfl, fun p mem => ?_⟩
      obtain ⟨n, stated, rfl⟩ := List.mem_map.mp mem
      have lit : ∀ n ∈ daylightTable, 0 < n := by decide
      exact ofScientific_pos (lit n stated) 3
  | a =>
      refine ⟨rfl, fun p mem => ?_⟩
      obtain ⟨i, -, rfl⟩ := List.mem_map.mp mem
      refine incandescent_pos (Nat.cast_pos.mpr ?_)
      exact Nat.add_pos_left (by decide) _
  | e =>
      refine ⟨rfl, fun p mem => ?_⟩
      obtain ⟨-, -, rfl⟩ := List.mem_map.mp mem
      change (0 : ℝ) < 100
      norm_num

end Light

/-! The conversion. -/

section Conversion

variable {s : SpectralShape ℝ} {coord : Xyz ℝ → ℝ} {ws : List (Xyz ℝ)}

theorem weighed_le (two : 2 ≤ s.bands) (norm : 0 < s.norm) (nonneg : ∀ w ∈ ws, 0 ≤ coord w)
    {dark bright : Array ℝ} (below : Below s.bands dark bright) (i : ℕ) :
    weighed s dark coord i ws ≤ weighed s bright coord i ws := by
  induction ws generalizing i with
  | nil => exact le_rfl
  | cons w ws ih =>
      have first := sampled_le two below (Scalar.ofNat (tableStart + tableStep * i))
      have own := nonneg w List.mem_cons_self
      have others := ih (fun w mem => nonneg w (List.mem_cons_of_mem _ mem)) (i + 1)
      simp only [weighed]
      gcongr

/-- A spectrum of one value takes the weights as they are, wherever its bands lie. -/
theorem weighed_replicate (two : 2 ≤ s.bands) (norm : s.norm ≠ 0) (r : ℝ) (i : ℕ) :
    weighed s (Array.replicate s.bands (r * s.norm)) coord i ws = r * (ws.map coord).sum := by
  induction ws generalizing i with
  | nil => simp [weighed]
  | cons w ws ih =>
      rw [weighed, sampled_replicate two, ih, mul_div_cancel_right₀ r norm, List.map_cons,
        List.sum_cons, mul_add]

/-- The colour of a spectrum under a light of the given powers. -/
noncomputable def lightColor (powers : List ℝ) (s : SpectralShape ℝ) (spectrum : Array ℝ) : Xyz ℝ :=
  ⟨weighed s spectrum Xyz.x 0 (lightWeights powers),
    weighed s spectrum Xyz.y 0 (lightWeights powers),
    weighed s spectrum Xyz.z 0 (lightWeights powers)⟩

/-- The colour of a perfect reflector under a light of the given powers. -/
noncomputable def lightWhite (powers : List ℝ) : Xyz ℝ :=
  ⟨((lightWeights powers).map Xyz.x).sum, ((lightWeights powers).map Xyz.y).sum,
    ((lightWeights powers).map Xyz.z).sum⟩

/-- The conversion of spectra under a light of the given powers. -/
noncomputable def SpectralShape.convertUnder (s : SpectralShape ℝ) (powers : List ℝ)
    (spectrum : Array ℝ) : Except (Failure (ColorError ℝ)) (Xyz ℝ) :=
  if spectrum.size ≠ s.bands then .error (.refused (.spectrumLength s.bands spectrum.size))
  else
    match s.integrateFrom spectrum 0 ⟨0, 0, 0⟩ (lightWeights powers) with
    | some c => .ok c
    | none => .error .outside

theorem convert_eq_convertUnder (s : SpectralShape ℝ) (ill : Illuminant) :
    s.convert ill = s.convertUnder ill.powers := by
  funext spectrum
  simp only [SpectralShape.convert, SpectralShape.convertUnder, weights_eq, Scalar.real_zero]
  cases s.integrateFrom spectrum 0 ⟨0, 0, 0⟩ (lightWeights ill.powers) <;> rfl

theorem convertUnder_eq (two : 2 ≤ s.bands) (powers : List ℝ) (spectrum : Array ℝ) :
    s.convertUnder powers spectrum =
      if spectrum.size = s.bands then .ok (lightColor powers s spectrum)
      else .error (.refused (.spectrumLength s.bands spectrum.size)) := by
  unfold SpectralShape.convertUnder
  by_cases size : spectrum.size = s.bands
  · rw [if_neg (not_not.mpr size), if_pos size, integrateFrom_eq size two]
    simp [lightColor]
  · rw [if_pos size, if_neg size]

/-- What a conversion makes of the spectra of a layout: which fail, the colour of a spectrum of one
value, the range of the luminance, and the order of spectra. -/
structure Normalized (s : SpectralShape ℝ) (white : Xyz ℝ)
    (convert : Array ℝ → Except (Failure (ColorError ℝ)) (Xyz ℝ)) : Prop where
  fails_iff : ∀ spectrum e, convert spectrum = .error e ↔
    spectrum.size ≠ s.bands ∧ e = .refused (.spectrumLength s.bands spectrum.size)
  constant : ∀ r, convert (Array.replicate s.bands (r * s.norm)) =
    .ok ⟨r * white.x, r * white.y, r * white.z⟩
  within : ∀ spectrum c lo hi, convert spectrum = .ok c →
    (∀ v ∈ spectrum, lo * s.norm ≤ v ∧ v ≤ hi * s.norm) → lo ≤ c.y ∧ c.y ≤ hi
  ordered : ∀ dark bright c d, convert dark = .ok c → convert bright = .ok d →
    Below s.bands dark bright → c.x ≤ d.x ∧ c.y ≤ d.y ∧ c.z ≤ d.z

variable {powers : List ℝ}

theorem lightColor_le (light : IsLight powers) (two : 2 ≤ s.bands) (norm : 0 < s.norm)
    {dark bright : Array ℝ} (below : Below s.bands dark bright) :
    (lightColor powers s dark).x ≤ (lightColor powers s bright).x ∧
      (lightColor powers s dark).y ≤ (lightColor powers s bright).y ∧
      (lightColor powers s dark).z ≤ (lightColor powers s bright).z :=
  ⟨weighed_le two norm (fun _ mem => (light.weights_nonneg mem).1) below 0,
    weighed_le two norm (fun _ mem => (light.weights_nonneg mem).2.1) below 0,
    weighed_le two norm (fun _ mem => (light.weights_nonneg mem).2.2) below 0⟩

theorem lightColor_replicate (two : 2 ≤ s.bands) (norm : s.norm ≠ 0) (r : ℝ) :
    lightColor powers s (Array.replicate s.bands (r * s.norm)) =
      ⟨r * (lightWhite powers).x, r * (lightWhite powers).y, r * (lightWhite powers).z⟩ := by
  simp only [lightColor, lightWhite, weighed_replicate two norm]

theorem below_replicate {spectrum : Array ℝ} {v : ℝ} (size : spectrum.size = s.bands)
    (h : ∀ x ∈ spectrum, x ≤ v) : Below s.bands spectrum (Array.replicate s.bands v) := by
  intro i inside
  have stands : i < spectrum.size := size ▸ inside
  simpa [Array.getD_eq_getD_getElem?, inside, stands] using h _ (Array.getElem_mem stands)

theorem replicate_below {spectrum : Array ℝ} {v : ℝ} (size : spectrum.size = s.bands)
    (h : ∀ x ∈ spectrum, v ≤ x) : Below s.bands (Array.replicate s.bands v) spectrum := by
  intro i inside
  have stands : i < spectrum.size := size ▸ inside
  simpa [Array.getD_eq_getD_getElem?, inside, stands] using h _ (Array.getElem_mem stands)

theorem normalized_convertUnder (light : IsLight powers)
    (made : SpectralShape.make s.bands s.startNm s.endNm s.norm = .ok s) :
    Normalized s (lightWhite powers) (s.convertUnder powers) := by
  have two := two_le_bands made
  have norm := norm_pos_of_make made
  have accepted {spectrum : Array ℝ} {c : Xyz ℝ} (h : s.convertUnder powers spectrum = .ok c) :
      spectrum.size = s.bands ∧ c = lightColor powers s spectrum := by
    rw [convertUnder_eq two] at h
    split at h
    · cases h
      exact ⟨‹_›, rfl⟩
    · cases h
  refine ⟨fun spectrum e => ?_, fun r => ?_, fun spectrum c lo hi h within => ?_,
    fun dark bright c d hc hd below => ?_⟩
  · rw [convertUnder_eq two]
    by_cases size : spectrum.size = s.bands
    · simp [size]
    · simp [size, eq_comm (a := e)]
  · rw [convertUnder_eq two, if_pos (Array.size_replicate), lightColor_replicate two norm.ne']
  · obtain ⟨size, rfl⟩ := accepted h
    have lower := lightColor_le light two norm (replicate_below size fun v mem => (within v mem).1)
    have upper := lightColor_le light two norm (below_replicate size fun v mem => (within v mem).2)
    rw [lightColor_replicate two norm.ne'] at lower upper
    have one : (lightWhite powers).y = 1 := light.sum_luminances
    simp only [one, mul_one] at lower upper
    exact ⟨lower.2.1, upper.2.1⟩
  · obtain ⟨-, rfl⟩ := accepted hc
    obtain ⟨-, rfl⟩ := accepted hd
    exact lightColor_le light two norm below

end Conversion

/-- Under every light, whatever the layout: only a spectrum of the wrong length fails, a spectrum
of one value has that share of the white, whose luminance is 1, the luminance stays within the range
of the values, and a spectrum nowhere below another has no smaller coordinate. -/
theorem convert_normalized_ordered :
    (∀ ill : Illuminant, ∃ white : Xyz ℝ, white.y = 1 ∧
      ∀ s : SpectralShape ℝ, SpectralShape.make s.bands s.startNm s.endNm s.norm = .ok s →
        Normalized s white (s.convert ill)) ∧
    ∀ powers : List ℝ, IsLight powers → ∃ white : Xyz ℝ, white.y = 1 ∧
      ∀ s : SpectralShape ℝ, SpectralShape.make s.bands s.startNm s.endNm s.norm = .ok s →
        Normalized s white (s.convertUnder powers) := by
  have all (powers : List ℝ) (light : IsLight powers) : ∃ white : Xyz ℝ, white.y = 1 ∧
      ∀ s : SpectralShape ℝ, SpectralShape.make s.bands s.startNm s.endNm s.norm = .ok s →
        Normalized s white (s.convertUnder powers) :=
    ⟨lightWhite powers, light.sum_luminances, fun _ made => normalized_convertUnder light made⟩
  refine ⟨fun ill => ?_, all⟩
  simpa only [convert_eq_convertUnder] using all ill.powers (isLight_powers ill)

theorem make_twoBands :
    SpectralShape.make 2 400 700 100 = (.ok ⟨2, 400, 700, 100⟩ : Except _ (SpectralShape ℝ)) := by
  apply (make_eq_ok_iff (s := ⟨2, 400, 700, 100⟩)).mpr
  norm_num

theorem convert_normalized_ordered_twoBands :
    (∃ c d : Xyz ℝ, SpectralShape.convert ⟨2, 400, 700, 100⟩ .a #[25, 50] = .ok c ∧
      SpectralShape.convert ⟨2, 400, 700, 100⟩ .a #[25, 75] = .ok d ∧
      1 / 4 ≤ c.y ∧ c.y ≤ 1 / 2 ∧ c.x ≤ d.x ∧ c.y ≤ d.y ∧ c.z ≤ d.z) ∧
    IsLight (List.replicate 41 3) ∧ ∃ c : Xyz ℝ, c.y = 1 / 2 ∧
      SpectralShape.convertUnder ⟨2, 400, 700, 100⟩ (List.replicate 41 3) #[50, 50] = .ok c := by
  constructor
  · obtain ⟨white, -, normalized⟩ := convert_normalized_ordered.1 .a
    have normalized := normalized ⟨2, 400, 700, 100⟩ make_twoBands
    have converted (spectrum : Array ℝ) (size : spectrum.size = 2) :
        ∃ c, SpectralShape.convert ⟨2, 400, 700, 100⟩ .a spectrum = .ok c := by
      cases h : SpectralShape.convert ⟨2, 400, 700, 100⟩ .a spectrum with
      | ok c => exact ⟨c, rfl⟩
      | error e => exact absurd size ((normalized.fails_iff spectrum e).mp h).1
    obtain ⟨c, hc⟩ := converted #[25, 50] rfl
    obtain ⟨d, hd⟩ := converted #[25, 75] rfl
    obtain ⟨lower, upper⟩ := normalized.within _ c (1 / 4) (1 / 2) hc (by norm_num)
    refine ⟨c, d, hc, hd, lower, upper, normalized.ordered _ _ c d hc hd fun i inside => ?_⟩
    interval_cases i <;> norm_num
  · have light : IsLight (List.replicate 41 (3 : ℝ)) := ⟨by simp [observerTable], by simp⟩
    obtain ⟨white, one, normalized⟩ := convert_normalized_ordered.2 _ light
    refine ⟨light, ⟨1 / 2 * white.x, 1 / 2 * white.y, 1 / 2 * white.z⟩, by simp [one], ?_⟩
    have half : (1 / 2 * 100 : ℝ) = 50 := by norm_num
    have converted := (normalized ⟨2, 400, 700, 100⟩ make_twoBands).constant (1 / 2)
    rwa [half] at converted

end InkModel
