import InkModel.Proofs.Color.Lightness
import InkModel.Proofs.Device.Reference
import InkModel.Proofs.Fit.Stages

/-! # Bands that start from others

A band takes over the curves of a band that stays as it is from then on. Of its three starts it
takes the first of the best: the whole curves of the other band, its own, or the other's first
harmonics.
-/

namespace InkModel

/-! The bands before, at and after a turn. -/

section Turns

variable {solver : Solver ℝ} {opts : FitOptions ℝ} {problem : ℕ → BandProblem ℝ}
variable {initial bands final : Array (Band ℝ)}

theorem fitTurns_append (bands : Array (Band ℝ)) (before after : List Turn) :
    fitTurns solver opts problem bands (before ++ after) =
      (fitTurns solver opts problem bands before).bind fun bands =>
        fitTurns solver opts problem bands after := by
  induction before generalizing bands with
  | nil => rfl
  | cons turn before ih =>
      rw [List.cons_append, fitTurns, fitTurns]
      split
      · rfl
      · exact ih _

/-- A band that has no turn stays as it is. -/
theorem fitTurns_other {turns : List Turn}
    (fitted : fitTurns solver opts problem bands turns = .ok final) :
    final.size = bands.size ∧ ∀ j ∉ turns.map Turn.band, final[j]? = bands[j]? := by
  induction turns generalizing bands with
  | nil =>
      cases fitted
      simp
  | cons turn turns ih =>
      rw [fitTurns] at fitted
      split at fitted
      · cases fitted
      · obtain ⟨size, others⟩ := ih fitted
        refine ⟨by simpa using size, fun j other => ?_⟩
        obtain ⟨here, later⟩ := not_or.mp (mt List.mem_cons.mpr other)
        rw [others j later, Array.getElem?_setIfInBounds_ne (Ne.symm here)]

/-- What a turn of a fit from `initial` to `final` does to the bands of that moment. Its own band is
as in the beginning, the band that it starts from is as in the end, and it makes the final band. -/
structure TurnSettles (solver : Solver ℝ) (opts : FitOptions ℝ) (problem : ℕ → BandProblem ℝ)
    (initial bands final : Array (Band ℝ)) (turn : Turn) : Prop where
  own : ∃ b, initial[turn.band]? = some b ∧ bands[turn.band]? = some b
  source : ∀ source ∈ turn.source, ∃ b, bands[source]? = some b ∧ final[source]? = some b
  fits : ∃ fitted, fitBand solver (problem turn.band) opts opts.quality.passes
      (bands.getD turn.band ⟨#[], #[], #[]⟩)
      (turn.source.map fun source => bands.getD source ⟨#[], #[], #[]⟩) = .ok fitted ∧
    final[turn.band]? = some fitted.band

theorem fitTurns_settles {before after : List Turn} {turn : Turn}
    (ready : ReadyOrder [] (before ++ turn :: after))
    (inside : ∀ t ∈ before ++ turn :: after, t.band < initial.size)
    (fitted : fitTurns solver opts problem initial (before ++ turn :: after) = .ok final) :
    ∃ bands, fitTurns solver opts problem initial before = .ok bands ∧
      TurnSettles solver opts problem initial bands final turn := by
  obtain ⟨new, once, sources⟩ := ready.split
  rw [fitTurns_append] at fitted
  cases ran : fitTurns solver opts problem initial before with
  | error e =>
      rw [ran] at fitted
      cases fitted
  | ok bands =>
      rw [ran] at fitted
      have rest : fitTurns solver opts problem bands (turn :: after) = .ok final := fitted
      obtain ⟨size, earlier⟩ := fitTurns_other ran
      obtain ⟨-, later⟩ := fitTurns_other rest
      have here : turn.band < bands.size := size ▸ inside turn (by simp)
      refine ⟨bands, rfl, ?_, fun source own => ?_, ?_⟩
      · exact ⟨bands[turn.band], earlier _ new ▸ Array.getElem?_eq_getElem here,
          Array.getElem?_eq_getElem here⟩
      · obtain ⟨reached, settled⟩ := sources source own
        obtain ⟨t, mem, rfl⟩ := List.mem_map.mp reached
        have there : t.band < bands.size := size ▸ inside t (List.mem_append_left _ mem)
        rw [later _ settled]
        exact ⟨bands[t.band], Array.getElem?_eq_getElem there, Array.getElem?_eq_getElem there⟩
      · rw [fitTurns] at rest
        split at rest
        · cases rest
        · rename_i result found
          refine ⟨result, found, ?_⟩
          rw [(fitTurns_other rest).2 _ once, Array.getElem?_setIfInBounds_self_of_lt here]

end Turns

/-- A fit visits every band once. Only the first has no source, and every other band starts from one
that was visited before: a spectral band from its neighbour, and at last Y, X and Z from the bands
nearest to 555, 600 and 445 nm. So a band takes over what is final. -/
theorem bandOrder_visits_once (spectral : Option (SpectralShape ℝ))
    (layout : ∀ s, spectral = some s → 2 ≤ s.bands ∧ s.startNm < s.endNm) :
    ((bandOrder spectral).map Turn.band).Perm
      (List.range (xyzBands + (spectral.map SpectralShape.bands).getD 0)) ∧
    (∀ before turn after, bandOrder spectral = before ++ turn :: after →
      (turn.source = none ↔ before = []) ∧
        ∀ source ∈ turn.source, source ∈ before.map Turn.band) ∧
    (∀ s, spectral = some s → ∃ walk y x z,
      bandOrder spectral = ⟨spectralBand y, none⟩ :: walk ++
        [⟨1, some (spectralBand y)⟩, ⟨0, some (spectralBand x)⟩, ⟨2, some (spectralBand z)⟩] ∧
      (∀ turn ∈ walk, ∃ i < s.bands, ∃ k < s.bands, (i = k + 1 ∨ k = i + 1) ∧
        turn = ⟨spectralBand i, some (spectralBand k)⟩) ∧
      IsNearestBand s 555 y ∧ IsNearestBand s 600 x ∧ IsNearestBand s 445 z) ∧
    ∀ solver inks samples (opts : FitOptions ℝ) parts, opts.spectral = spectral →
      fit solver inks samples opts = .ok parts →
      ∃ points, fitInputs inks samples opts = .ok points ∧
        ∀ before turn after, bandOrder spectral = before ++ turn :: after →
          ∃ bands, fitTurns solver opts (fitProblem inks points opts)
              (startParts inks points opts).bands before = .ok bands ∧
            TurnSettles solver opts (fitProblem inks points opts)
              (startParts inks points opts).bands bands parts.bands turn := by
  have positive (s) (given : spectral = some s) : 0 < s.bands := two_pos.trans_le (layout s given).1
  have ready := bandOrder_ready positive
  refine ⟨bandOrder_perm positive, ?_, ?_, ?_⟩
  · intro before turn after order
    refine ⟨bandOrder_source order, fun source own => ?_⟩
    rw [order] at ready
    exact (ready.split.2.2 source own).1
  · rintro s rfl
    obtain ⟨two, ordered⟩ := layout s rfl
    have nearest := indexNearest_isNearest two ordered
    exact ⟨_, _, _, _, bandOrder_some s, fun turn mem => walkOut_adjacent (nearest 555).inside mem,
      nearest 555, nearest 600, nearest 445⟩
  · rintro solver inks samples opts parts rfl fitted
    obtain ⟨points, final, given, ran, rfl⟩ := fit_eq_ok fitted
    obtain ⟨-, spectralBands, count, prepared⟩ := fitInputs_eq_ok_iff.mp given
    refine ⟨points, given, fun before turn after order => ?_⟩
    have inside (t) (mem : t ∈ bandOrder opts.spectral) :
        t.band < (startParts inks points opts).bands.size := by
      rw [startParts_bands_size prepared]
      exact (bandOrder_inside positive count t mem).1
    rw [order] at ready ran inside
    exact fitTurns_settles ready inside ran

theorem bandOrder_visits_once_lampSamples :
    ((bandOrder (greyLamp : Parts ℝ).spectral).map Turn.band).Perm (List.range 5) ∧
    ∃ parts points, fit stillSolver (greyLamp : Parts ℝ).inks lampSamples startOnly = .ok parts ∧
      ∀ before turn after,
        bandOrder (greyLamp : Parts ℝ).spectral = before ++ turn :: after →
        ∃ bands, TurnSettles stillSolver startOnly
          (fitProblem (greyLamp : Parts ℝ).inks points startOnly)
          (startParts (greyLamp : Parts ℝ).inks points startOnly).bands bands parts.bands turn := by
  have made (s : SpectralShape ℝ) (given : (greyLamp : Parts ℝ).spectral = some s) :
      SpectralShape.make s.bands s.startNm s.endNm s.norm = .ok s :=
    (greyLamp_storable.spectral s given).made
  have layout (s : SpectralShape ℝ) (given : (greyLamp : Parts ℝ).spectral = some s) :
      2 ≤ s.bands ∧ s.startNm < s.endNm := by
    refine ⟨two_le_bands (made s given), ?_⟩
    cases given
    change (400 : ℝ) < 700
    norm_num
  obtain ⟨all, -, -, run⟩ := bandOrder_visits_once (greyLamp : Parts ℝ).spectral layout
  obtain ⟨points, prepared⟩ : ∃ points,
      fitPoints (greyLamp : Parts ℝ).inks.count 2 lampSamples = .ok points := lampSamples_prepared
  have fitted : fit stillSolver (greyLamp : Parts ℝ).inks lampSamples startOnly =
      .ok (startParts (greyLamp : Parts ℝ).inks points startOnly) :=
    fit_still prepared stillSolver greyLamp_valid.inks rfl made rfl
  obtain ⟨points', -, settles⟩ := run stillSolver (greyLamp : Parts ℝ).inks lampSamples startOnly _
    rfl fitted
  refine ⟨all, _, points', fitted, fun before turn after order => ?_⟩
  obtain ⟨bands, -, settled⟩ := settles before turn after order
  exact ⟨bands, settled⟩

/-! The three starts of a band from another. -/

section Starts

/-- Whether `curves` keeps the first harmonic of each channel of `source`, and nothing else. -/
structure IsFirstHarmonics (l : Layout) (source curves : Array ℝ) : Prop where
  size : curves.size = l.channels * l.order
  first : ∀ m < l.channels, curves[m * l.order]? = source[m * l.order]?
  others : ∀ m < l.channels, ∀ k < l.order, k ≠ 0 → curves[m * l.order + k]? = some 0

theorem firstHarmonics_isFirstHarmonics {l : Layout} {source : Array ℝ}
    (size : source.size = l.channels * l.order) :
    IsFirstHarmonics l source (firstHarmonics l source) := by
  constructor
  · rw [firstHarmonics, Array.size_mapIdx, size]
  · intro m _
    simp [firstHarmonics]
  · intro m hm k hk higher
    have inside : m * l.order + k < source.size := by
      rw [size]
      calc
        m * l.order + k < m * l.order + l.order := Nat.add_lt_add_left hk _
        _ = (m + 1) * l.order := (Nat.succ_mul m l.order).symm
        _ ≤ l.channels * l.order := Nat.mul_le_mul_right _ hm
    simp [firstHarmonics, Nat.mod_eq_of_lt hk, higher, inside, Scalar.real_zero]

/-- The first of the least of three, by two comparisons. -/
theorem argmin_three {β : Type} (f : β → ℝ) (x y z : β) : [x, y, z].argmin f =
    some (if f x ≤ f y ∧ f x ≤ f z then x else if f z < f y then z else y) := by
  simp only [List.argmin, List.foldl_cons, List.foldl_nil, List.argAux]
  rcases lt_or_ge (f y) (f x) with better | first
  · have passed : ¬(f x ≤ f y ∧ f x ≤ f z) := fun both => absurd both.1 better.not_ge
    simp only [if_pos better, if_neg passed]
    split <;> rfl
  · simp only [if_neg first.not_gt, first, true_and]
    rcases lt_or_ge (f z) (f x) with last | both
    · rw [if_pos last, if_neg last.not_ge, if_pos (last.trans_le first)]
    · rw [if_neg both.not_gt, if_pos both]

end Starts

/-- A band starts with the first of the best of three candidates: the curves and shapes of the band
that it starts from, its own, or the first harmonic of each channel of the other band with its own
shapes. Its primaries stay. -/
theorem warmStart_first_of_best (pb : BandProblem ℝ) (b source : Band ℝ)
    (own : b.Fits pb.layout) (same : source.Fits pb.layout) :
    ∃ full first : Band ℝ,
      (full.transfer = source.transfer ∧ full.shape = source.shape ∧
        full.primaries = b.primaries) ∧
      (IsFirstHarmonics pb.layout source.transfer first.transfer ∧ first.shape = b.shape ∧
        first.primaries = b.primaries) ∧
      [full, b, first].argmin pb.error = some (warmStart pb b source) ∧
      pb.error (warmStart pb b source) = min (pb.error full) (min (pb.error b) (pb.error first)) ∧
      (warmStart pb b source).primaries = b.primaries ∧
      (warmStart pb b source).Fits pb.layout := by
  let full : Band ℝ := { b with transfer := source.transfer, shape := source.shape }
  let first : Band ℝ := { b with transfer := firstHarmonics pb.layout source.transfer }
  have best : [full, b, first].argmin pb.error = some (warmStart pb b source) :=
    argmin_three pb.error _ _ _
  have least (c : Band ℝ) (other : c ∈ [full, b, first]) :
      pb.error (warmStart pb b source) ≤ pb.error c := List.le_of_mem_argmin other best
  have candidate : warmStart pb b source = full ∨ warmStart pb b source = b ∨
      warmStart pb b source = first := by simpa using List.argmin_mem best
  refine ⟨full, first, ⟨rfl, rfl, rfl⟩, ⟨firstHarmonics_isFirstHarmonics same.1, rfl, rfl⟩, best,
    ?_, ?_, warmStart_fits own same⟩
  · apply le_antisymm
    · exact le_min (least full (by simp)) (le_min (least b (by simp)) (least first (by simp)))
    · rcases candidate with taken | taken | taken <;> simp [taken]
  · rcases candidate with taken | taken | taken <;> rw [taken]

/-- A measurement of a dark grey at half of an ink. -/
noncomputable def darkPoint : FitPoint ℝ := ⟨#[0.5], #[0.325 * lightnessKnee], #[2.6], 1⟩

/-- A fit of two harmonics and a shape to the dark grey. -/
noncomputable def darkFit : BandProblem ℝ where
  layout := ⟨1, 2, true⟩
  points := [darkPoint]
  band := 0
  tuning := .default
  anchors := #[0, 8.0]

/-- A band so dark that its lightness is 8 times the value of its warped channel. -/
noncomputable def darkBand (c d s : ℝ) : Band ℝ := ⟨#[c, d], #[s], #[0, lightnessKnee]⟩

theorem darkBand_fits (c d s : ℝ) : (darkBand c d s).Fits darkFit.layout := ⟨rfl, rfl, rfl⟩

theorem evaluate_darkBand (c d s : ℝ) : evaluate darkFit.layout (darkBand c d s) darkPoint.dev =
    rationalBias s (transfer [c, d] 0.5) * lightnessKnee := by
  have one : darkFit.layout.channels = 1 := rfl
  have curve : curveValue darkFit.layout (darkBand c d s) darkPoint.dev 0 =
      transfer [c, d] 0.5 :=
    congrArg (transfer [c, d]) (saturate_of_mem (x := 0.5) (by norm_num))
  have off : (darkBand c d s).shapeAt darkFit.layout 0 0 = s := rfl
  have full : (darkBand c d s).shapeAt darkFit.layout 0 1 = s := rfl
  have strength : referenceStrength darkFit.layout (darkBand c d s) darkPoint.dev 0 = s := by
    rw [referenceStrength, one]
    simp [interpolate, combinationWeight, Finset.sum_range_succ, off, full]
    ring
  have warp : referenceWarp darkFit.layout (darkBand c d s) darkPoint.dev 0 =
      rationalBias s (transfer [c, d] 0.5) := by
    rw [referenceWarp, strength, curve]
    rfl
  rw [evaluate_eq_referenceValue (darkBand_fits c d s), referenceValue, one, ← warp]
  simp [interpolate, combinationWeight, Finset.sum_range_succ, darkBand, mul_comm]

theorem darkFit_error {c d s y : ℝ} (warped : rationalBias s (transfer [c, d] 0.5) = y)
    (dark : y ≤ 1) : darkFit.error (darkBand c d s) = (8 * y - 2.6) ^ 2 := by
  have value : lightness (evaluate darkFit.layout (darkBand c d s) darkPoint.dev) = 8 * y := by
    rw [evaluate_darkBand, warped, lightnessKnee_eq, Lightness.of_toe (by linarith)]
    ring
  have deviation : darkFit.deviation darkPoint
      (evaluate darkFit.layout (darkBand c d s) darkPoint.dev) = 8 * y - 2.6 := by
    rw [BandProblem.deviation, value]
    rfl
  have total : darkFit.weightSum = 1 := by
    simp [BandProblem.weightSum, darkFit, darkPoint, Scalar.sum, Scalar.real_zero]
  have only : darkFit.points = [darkPoint] := rfl
  have weight : darkPoint.weight = 1 := rfl
  rw [BandProblem.error_eq, total, only, List.map_singleton, List.sum_singleton,
    BandProblem.pointError, deviation, weight, one_mul, div_one]

theorem harmonic_first : harmonic 0 (1 : ℝ) 0.5 = 1 / 3 := by
  rw [harmonic, LineWarp.of_floor (n := 0) (by norm_num),
    Bias.eq_of_nonneg (by norm_num [sectionSign])]
  norm_num [sectionSign]

theorem harmonic_second : harmonic 1 (1 : ℝ) (1 / 3) = 1 / 4 := by
  rw [harmonic, LineWarp.of_floor (n := 0) (by norm_num),
    Bias.eq_of_nonneg (by norm_num [sectionSign])]
  norm_num [sectionSign]

theorem darkFit_errors : darkFit.error (darkBand 1 1 1) = 2601 / 1225 ∧
    darkFit.error (darkBand 0 0 0) = 1.96 ∧ darkFit.error (darkBand 1 0 0) = 1 / 225 := by
  have both : transfer [(1 : ℝ), 1] 0.5 = 1 / 4 := by
    simp only [transfer, transferFrom_cons, transferFrom_nil, harmonic_first, zero_add,
      harmonic_second]
  have first : transfer [(1 : ℝ), 0] 0.5 = 1 / 3 := by
    simp only [transfer, transferFrom_cons, transferFrom_nil, harmonic_first, Harmonic.at_zero_coef]
  have own : transfer [(0 : ℝ), 0] 0.5 = 0.5 := transferFrom_zero 0 (by simp) _
  have shaped : rationalBias (1 : ℝ) (1 / 4) = 1 / 7 := by
    rw [Bias.eq_of_nonneg zero_le_one]
    norm_num
  refine ⟨?_, ?_, ?_⟩
  · rw [darkFit_error (both ▸ shaped) (by norm_num)]
    norm_num
  · rw [darkFit_error ((Bias.strength_zero _).trans own) (by norm_num)]
    norm_num
  · rw [darkFit_error ((Bias.strength_zero _).trans first) (by norm_num)]
    norm_num

/-- The whole curves of the other band are too dark, and its own too light: the first harmonic
alone is almost right. -/
theorem warmStart_first_of_best_darkFit :
    darkFit.error (darkBand 1 1 1) = 2601 / 1225 ∧ darkFit.error (darkBand 0 0 0) = 1.96 ∧
      darkFit.error (darkBand 1 0 0) = 1 / 225 ∧
      warmStart darkFit (darkBand 0 0 0) (darkBand 1 1 1) = darkBand 1 0 0 := by
  obtain ⟨⟨_, _, _⟩, ⟨curves, _, _⟩, ⟨rfl, rfl, rfl⟩, ⟨harmonics, rfl, rfl⟩, best, -⟩ :=
    warmStart_first_of_best darkFit (darkBand 0 0 0) (darkBand 1 1 1) (darkBand_fits 0 0 0)
      (darkBand_fits 1 1 1)
  obtain rfl : curves = #[1, 0] := by
    have size : curves.size = 2 := harmonics.size
    have first : curves[0]? = some 1 := harmonics.first 0 one_pos
    have second : curves[1]? = some 0 := harmonics.others 0 one_pos 1 one_lt_two one_ne_zero
    refine Array.ext size fun i hi _ => ?_
    have position : i < 2 := size ▸ hi
    interval_cases i
    · simpa [hi] using first
    · simpa [hi] using second
  obtain ⟨full, own, first⟩ := darkFit_errors
  refine ⟨full, own, first, ?_⟩
  change [darkBand 1 1 1, darkBand 0 0 0, darkBand 1 0 0].argmin _ = _ at best
  rw [argmin_three, full, own, first] at best
  norm_num at best
  exact best.symm

end InkModel
