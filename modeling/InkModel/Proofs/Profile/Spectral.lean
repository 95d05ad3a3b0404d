import InkModel.Proofs.Profile.Illuminant

/-! # Lookups under a light source

A model under a light source adds up what each spectral band contributes to the colour. That is the
colour of its modelled spectrum, converted at once.
-/

namespace InkModel

open Finset

section Integral

variable {s : SpectralShape ℝ}

theorem bandWeights_eq (two : 2 ≤ s.bands) (ill : Illuminant) :
    bandWeights ill s = .ok ((List.range s.bands).map fun i =>
      colorUnder ill { s with norm := 1 } (singleBand s.bands i)) := by
  refine bandWeights_of_converts fun i => ?_
  rw [Scalar.real_one]
  exact convert_eq (s := { s with norm := 1 }) (singleBand_size s.bands i) two ill

theorem integrateBands_eq (ws : List (Xyz ℝ)) (rs : List ℝ) (acc : Xyz ℝ) :
    integrateBands acc ws rs =
      ⟨acc.x + ∑ j ∈ range rs.length, rs.getD j 0 * (ws.getD j ⟨0, 0, 0⟩).x,
        acc.y + ∑ j ∈ range rs.length, rs.getD j 0 * (ws.getD j ⟨0, 0, 0⟩).y,
        acc.z + ∑ j ∈ range rs.length, rs.getD j 0 * (ws.getD j ⟨0, 0, 0⟩).z⟩ := by
  induction ws generalizing rs acc with
  | nil => simp [integrateBands]
  | cons w ws ih =>
    cases rs with
    | nil => simp [integrateBands]
    | cons r rs =>
      simp only [integrateBands, ih, List.length_cons, sum_range_succ', List.getD_cons_succ,
        List.getD_cons_zero, Xyz.mk.injEq]
      refine ⟨?_, ?_, ?_⟩ <;> ring

/-- The contributions of the bands to a spectrum add up to its colour. -/
theorem integrateBands_bandWeights (two : 2 ≤ s.bands) (ill : Illuminant) {spectrum : Array ℝ}
    (size : spectrum.size = s.bands) :
    integrateBands ⟨0, 0, 0⟩ ((List.range s.bands).map fun i =>
        colorUnder ill { s with norm := 1 } (singleBand s.bands i)) spectrum.toList =
      colorUnder ill { s with norm := 1 } spectrum := by
  have sum (coord : Xyz ℝ → ℝ) := weighed_eq_sum (s := { s with norm := 1 }) size two coord
    ill.weights 0
  rw [integrateBands_eq, Array.length_toList, size]
  simp only [colorUnder, sum, Xyz.mk.injEq, zero_add]
  refine ⟨?_, ?_, ?_⟩
  all_goals
    refine sum_congr rfl fun j hj => ?_
    simp [List.getD_eq_getElem?_getD, Array.getD_eq_getD_getElem?, mem_range.mp hj]

end Integral

section Lookup

variable {α : Type} [Scalar α] {solver : Solver α} {parts : Parts α} {tuning : Tuning α}
variable {built m m' : Model α} {s : SpectralShape α}

theorem spectrum_length (valid : parts.Valid) (spectral : parts.spectral = some s)
    (weights : Option (List (Xyz α))) (dev : Array α) :
    ((Response.mk parts weights).spectrum dev).length = s.bands := by
  have count := valid.bandCount
  simp only [Parts.spectralBands, spectral, Option.map_some, Option.getD_some] at count
  simp [Response.spectrum, count]

/-- A spectral model under a light source has the weights of its bands. -/
theorem changeIlluminant_weights {ill : Illuminant} {weights : List (Xyz α)}
    (spectral : m.parts.spectral = some s) (found : bandWeights ill s = .ok weights)
    (changed : m.changeIlluminant solver (some ill) = (.ok (), m')) :
    m'.weights = some weights ∧ m'.parts = m.parts := by
  obtain ⟨chosen, parts, -⟩ := Model.setIlluminant_eq_ok (Model.changeIlluminant_ok changed)
  simp only [Model.chosenWeights, spectral, found] at chosen
  exact ⟨(Except.ok.inj chosen).symm, parts⟩

end Lookup

/-- The contributions of the bands, found once for a light source, add up to the colour of the
whole spectrum under it, wherever the layout begins and ends. So a lookup under a light source is
the colour of the modelled spectrum, whatever light sources came before. -/
theorem lookup_eq_convert_spectrum (ill : Illuminant) :
    (∀ s : SpectralShape ℝ, SpectralShape.make s.bands s.startNm s.endNm s.norm = .ok s →
      ∀ spectrum : Array ℝ, spectrum.size = s.bands →
        ∃ weights, bandWeights ill s = .ok weights ∧
          SpectralShape.convert { s with norm := 1 } ill spectrum =
            .ok (integrateBands ⟨0, 0, 0⟩ weights spectrum.toList)) ∧
    ∀ (solver : Solver ℝ) (parts : Parts ℝ) (tuning : Tuning ℝ) (built m m' : Model ℝ)
      (s : SpectralShape ℝ), Model.build solver parts tuning = .ok built →
      Model.Reached solver built m → parts.spectral = some s →
      SpectralShape.make s.bands s.startNm s.endNm s.norm = .ok s →
      m.changeIlluminant solver (some ill) = (.ok (), m') → ∀ dev,
        ∃ spectrum, m'.lookupSpectrum dev = .ok spectrum ∧
          SpectralShape.convert { s with norm := 1 } ill spectrum.toArray = .ok (m'.lookup dev) := by
  constructor
  · intro s made spectrum size
    have two := two_le_bands made
    refine ⟨_, bandWeights_eq two ill, ?_⟩
    rw [integrateBands_bandWeights two ill size]
    exact convert_eq (s := { s with norm := 1 }) size two ill
  · intro solver parts tuning built m m' s build reached spectral made changed dev
    have two := two_le_bands made
    obtain ⟨same, valid⟩ := reached.parts_eq build
    obtain ⟨weights, same'⟩ :=
      changeIlluminant_weights (same ▸ spectral) (bandWeights_eq two ill) changed
    have own : m'.parts = parts := same'.trans same
    have size : (m'.spectrum dev).toArray.size = s.bands := by
      simpa [own] using spectrum_length (own ▸ valid) (own ▸ spectral) m'.weights dev
    refine ⟨m'.spectrum dev, ?_, ?_⟩
    · simp [Response.lookupSpectrum, own, spectral]
    · have lookup : m'.lookup dev =
          colorUnder ill { s with norm := 1 } (m'.spectrum dev).toArray := by
        rw [Response.lookup, weights, Scalar.real_zero]
        exact integrateBands_bandWeights two ill size
      rw [lookup]
      exact convert_eq (s := { s with norm := 1 }) size two ill

theorem lookup_eq_convert_spectrum_greyModel :
    (∃ weights, bandWeights .e ⟨2, 400, 700, 100⟩ = .ok weights ∧
      SpectralShape.convert ⟨2, 400, 700, 1⟩ .e #[1 / 2, 1 / 4] =
        .ok (integrateBands ⟨0, 0, 0⟩ weights [(1 / 2 : ℝ), 1 / 4])) ∧
    ∃ daylit lit, (greyModel : Model ℝ).changeIlluminant stillSolver (some .d50) =
        (.ok (), daylit) ∧
      daylit.changeIlluminant stillSolver (some .a) = (.ok (), lit) ∧
      ∃ spectrum, lit.lookupSpectrum #[1 / 3] = .ok spectrum ∧
        SpectralShape.convert ⟨2, 400, 700, 1⟩ .a spectrum.toArray = .ok (lit.lookup #[1 / 3]) := by
  have made := (greyLamp_storable.spectral _ rfl).made
  constructor
  · exact (lookup_eq_convert_spectrum .e).1 _ made #[1 / 2, 1 / 4] rfl
  · obtain ⟨daylit, first, parts⟩ :=
      Model.changeIlluminant_display stillSolver (greyModel : Model ℝ) rfl rfl le_rfl .d50
    obtain ⟨lit, second, -⟩ := Model.changeIlluminant_display stillSolver daylit
      (by rw [parts]; rfl) (by rw [parts]; rfl) le_rfl .a
    have reached : Model.Reached stillSolver greyModel daylit :=
      .setIlluminant .built _ (Model.changeIlluminant_ok first)
    refine ⟨daylit, lit, first, second, ?_⟩
    exact (lookup_eq_convert_spectrum .a).2 stillSolver greyLamp _ greyModel daylit lit _
      (Model.build_eq_ok greyLamp_valid rfl) reached rfl made second #[1 / 3]

end InkModel
