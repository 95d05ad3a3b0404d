import InkModel.Proofs.Fit.Order
import InkModel.Proofs.Fit.Start
import InkModel.Proofs.Profile.Corners
import InkModel.Proofs.Search.ConjugateGradient

/-! # A fit without iterations

All bands start with the same curves, so a band that is started from another keeps its own, and a
stage without iterations stays where it starts. So the model is the start of the fit, and it gives
the measurements at the corners of the device.
-/

namespace InkModel

/-! Stages, passes and turns without iterations. -/

section Still

variable (solver : Solver ℝ) {l : Layout} {pb : BandProblem ℝ} {b : Band ℝ}

/-- Every stage of a layout has parameters. -/
theorem stage_params_nonempty (channels : 0 < l.channels) (order : 0 < l.order) (fits : b.Fits l)
    {stage : Stage} (mem : stage ∈ stagesOf l) : (stage.params b).size ≠ 0 := by
  obtain ⟨transfer, shape, primaries⟩ := fits
  cases stage with
  | transfer =>
      rw [Stage.params, transfer]
      exact (Nat.mul_pos channels order).ne'
  | shape =>
      have shaped : l.shaped = true := by
        by_contra plain
        simp [stagesOf, plain] at mem
      rw [Stage.params, shape, Layout.shapeCount, slotsPerChannel_eq channels shaped]
      exact (Nat.mul_pos channels (Nat.two_pow_pos _)).ne'
  | primaries =>
      rw [Stage.params, primaries]
      exact (Nat.two_pow_pos _).ne'

/-- A stage without iterations moves nothing. -/
theorem minimize_still (still : pb.tuning.maxIterations = 0) {stage : Stage}
    (nonempty : (stage.params b).size ≠ 0) (tolerance : ℝ) :
    ∃ m, pb.minimize solver stage b tolerance = .ok (b, m) := by
  rw [BandProblem.minimize, still, conjugateGradient_still nonempty (by simp)]
  cases stage <;> exact ⟨_, rfl⟩

theorem runStages_still (still : pb.tuning.maxIterations = 0) {stages : List Stage}
    (nonempty : ∀ stage ∈ stages, (stage.params b).size ≠ 0) (tolerance : ℝ) :
    runStages solver pb tolerance b stages = .ok b := by
  induction stages with
  | nil => rfl
  | cons stage stages ih =>
      obtain ⟨first, others⟩ := List.forall_mem_cons.mp nonempty
      obtain ⟨m, stays⟩ := minimize_still solver still first tolerance
      rw [runStages, stays]
      exact ih others

theorem runPasses_still (still : pb.tuning.maxIterations = 0)
    (nonempty : ∀ stage ∈ stagesOf pb.layout, (stage.params b).size ≠ 0) (earlyExit : Option ℝ)
    (passes : ℕ) (tolerance : ℝ) (last : Option ℝ) :
    ∃ error, runPasses solver pb earlyExit passes tolerance last b = .ok ⟨b, error⟩ := by
  induction passes generalizing tolerance last with
  | zero => exact ⟨_, rfl⟩
  | succ passes ih =>
      rw [runPasses, runStages_still solver still nonempty]
      cases last with
      | none => exact ih _ _
      | some before =>
          dsimp only
          split
          · exact ⟨_, rfl⟩
          · exact ih _ _

variable {t : Tuning ℝ}

/-- The three starts of a band from another are the same. -/
theorem Band.IsFresh.candidates {source : Band ℝ} (fresh : b.IsFresh l t)
    (same : source.IsFresh l t) :
    { b with transfer := source.transfer, shape := source.shape } = b ∧
      { b with transfer := firstHarmonics l source.transfer } = b := by
  have transfer : source.transfer = b.transfer := same.transfer.trans fresh.transfer.symm
  have shape : source.shape = b.shape := same.shape.trans fresh.shape.symm
  constructor
  · rw [transfer, shape]
  · rw [same.transfer, firstHarmonics_startTransfer, ← fresh.transfer]

theorem warmStart_fresh {source : Band ℝ} (fresh : b.IsFresh pb.layout t)
    (same : source.IsFresh pb.layout t) : warmStart pb b source = b := by
  obtain ⟨full, first⟩ := fresh.candidates same
  rw [warmStart, full, first]
  split
  · rfl
  · split <;> rfl

theorem fitBand_still (still : pb.tuning.maxIterations = 0) (channels : 0 < pb.layout.channels)
    (order : 0 < pb.layout.order) (fresh : b.IsFresh pb.layout t) {source : Option (Band ℝ)}
    (same : ∀ s ∈ source, s.IsFresh pb.layout t) (opts : FitOptions ℝ) (passes : ℕ) :
    ∃ error, fitBand solver pb opts passes b source = .ok ⟨b, error⟩ := by
  have nonempty : ∀ stage ∈ stagesOf pb.layout, (stage.params b).size ≠ 0 :=
    fun stage => stage_params_nonempty channels order fresh.fits
  unfold fitBand
  cases source with
  | none => exact runPasses_still solver still nonempty _ _ _ _
  | some s =>
      dsimp only
      rw [warmStart_fresh fresh (same s rfl)]
      exact runPasses_still solver still nonempty _ _ _ _

omit solver in
/-- What all bands are, the bands of a turn are. -/
theorem turn_bands {P : Band ℝ → Prop} {bands : Array (Band ℝ)} (all : ∀ b ∈ bands, P b)
    {turn : Turn} (inside : turn.band < bands.size ∧ ∀ s ∈ turn.source, s < bands.size)
    (blank : Band ℝ) : P (bands.getD turn.band blank) ∧
      ∀ s ∈ turn.source.map fun s => bands.getD s blank, P s := by
  have here {j : ℕ} (hj : j < bands.size) : P (bands.getD j blank) := by
    rw [Array.getD_eq_getD_getElem?, Array.getElem?_eq_getElem hj]
    exact all _ (Array.getElem_mem hj)
  refine ⟨here inside.1, fun s mem => ?_⟩
  obtain ⟨i, hi, rfl⟩ := Option.mem_map.mp mem
  exact here (inside.2 i hi)

theorem fitTurns_still {problem : ℕ → BandProblem ℝ} {bands : Array (Band ℝ)} {turns : List Turn}
    (channels : 0 < l.channels) (order : 0 < l.order) (layout : ∀ j, (problem j).layout = l)
    (still : ∀ j, (problem j).tuning.maxIterations = 0) (fresh : ∀ b ∈ bands, b.IsFresh l t)
    (inside : ∀ turn ∈ turns, turn.band < bands.size ∧ ∀ s ∈ turn.source, s < bands.size)
    (opts : FitOptions ℝ) : fitTurns solver opts problem bands turns = .ok bands := by
  induction turns with
  | nil => rfl
  | cons turn turns ih =>
      obtain ⟨first, others⟩ := List.forall_mem_cons.mp inside
      obtain ⟨own, same⟩ := turn_bands fresh first ⟨#[], #[], #[]⟩
      rw [← layout turn.band] at channels order
      obtain ⟨error, stays⟩ := fitBand_still solver (still turn.band) channels order
        (layout turn.band ▸ own) (layout turn.band ▸ same) opts opts.quality.passes
      have kept : bands.setIfInBounds turn.band (bands.getD turn.band ⟨#[], #[], #[]⟩) = bands := by
        rw [Array.getD_eq_getD_getElem?, Array.getElem?_eq_getElem first.1, Option.getD_some,
          setIfInBounds_getElem_self first.1]
      rw [fitTurns, stays]
      dsimp only
      rw [kept]
      exact ih others

end Still

section Fit

variable {solver : Solver ℝ} {inks : InkSet} {samples : List (Sample ℝ)} {opts : FitOptions ℝ}
variable {spectralBands : ℕ} {points : List (FitPoint ℝ)}

/-- The dimensions of a fit. -/
def fitLayout (inks : InkSet) (opts : FitOptions ℝ) : Layout :=
  ⟨inks.count, opts.quality.transferOrder, opts.shaped⟩

/-- The model of a fit that ends where it starts. -/
noncomputable def startParts (inks : InkSet) (points : List (FitPoint ℝ)) (opts : FitOptions ℝ) :
    Parts ℝ where
  inks
  limit := opts.limit
  order := opts.quality.transferOrder
  shaped := opts.shaped
  spectral := opts.spectral
  instrument := opts.instrument
  created := none
  bands := initialBands (fitLayout inks opts) points inks.additive opts.tuning

theorem ofSamples_eq_ok {model : Model ℝ}
    (fitted : Model.ofSamples solver inks samples opts = .ok model) :
    ∃ parts, fit solver inks samples opts = .ok parts ∧
      Model.build solver parts opts.tuning = .ok model := by
  simp only [Model.ofSamples, bind_eq_ok_iff] at fitted
  obtain ⟨parts, fit, built, build, reported⟩ := fitted
  have same : built = model := by
    split at reported
    · obtain ⟨_, -, same⟩ := bind_eq_ok_iff.mp reported
      exact Except.ok.inj same
    · exact Except.ok.inj reported
  exact ⟨parts, fit, same ▸ build⟩

theorem channels_pos (inks : InkSet) (opts : FitOptions ℝ) : 0 < (fitLayout inks opts).channels :=
  List.length_pos_iff.mpr inks.inks_ne_nil

theorem order_pos (inks : InkSet) (opts : FitOptions ℝ) : 0 < (fitLayout inks opts).order := by
  change 0 < opts.quality.transferOrder
  cases opts.quality <;> decide

/-- The problem of a band in a fit. -/
noncomputable def fitProblem (inks : InkSet) (points : List (FitPoint ℝ)) (opts : FitOptions ℝ)
    (j : ℕ) : BandProblem ℝ where
  layout := fitLayout inks opts
  points
  band := j
  tuning := opts.tuning
  anchors := (((startParts inks points opts).bands[j]?).map (·.primaries)).getD #[] |>.map lightness

theorem fit_eq : fit solver inks samples opts =
    (fitInputs inks samples opts).bind fun points =>
      (fitTurns solver opts (fitProblem inks points opts) (startParts inks points opts).bands
        (bandOrder opts.spectral)).map fun bands => { startParts inks points opts with bands } := by
  unfold fit fitInputs
  simp only [bind, Except.bind]
  cases (checkInks inks.count : Except (ModelError ℝ) Unit) with
  | error e => rfl
  | ok _ =>
      cases (spectralCount opts.spectral : Except (ModelError ℝ) ℕ) with
      | error e => rfl
      | ok spectralBands =>
          dsimp only
          cases fitPoints inks.count spectralBands samples with
          | error e => rfl
          | ok points => rfl

theorem fit_eq_ok {parts : Parts ℝ} (fitted : fit solver inks samples opts = .ok parts) :
    ∃ points bands, fitInputs inks samples opts = .ok points ∧
      fitTurns solver opts (fitProblem inks points opts) (startParts inks points opts).bands
        (bandOrder opts.spectral) = .ok bands ∧
      parts = { startParts inks points opts with bands } := by
  rw [fit_eq] at fitted
  obtain ⟨points, given, fitted⟩ := bind_eq_ok_iff.mp fitted
  obtain ⟨bands, ran, same⟩ := map_eq_ok_iff.mp fitted
  exact ⟨points, bands, given, ran, same.symm⟩

section Prepared

variable (prepared : fitPoints inks.count spectralBands samples = .ok points)
include prepared

theorem startParts_bands_size :
    (startParts inks points opts).bands.size = xyzBands + spectralBands := by
  obtain ⟨nonempty, all⟩ := fitPoints_eq_ok prepared
  exact initialBands_size nonempty all

theorem fit_still (solver : Solver ℝ) (few : inks.count ≤ maxInks)
    (count : (spectralCount opts.spectral : Except (ModelError ℝ) ℕ) = .ok spectralBands)
    (made : ∀ s, opts.spectral = some s →
      SpectralShape.make s.bands s.startNm s.endNm s.norm = .ok s)
    (still : opts.tuning.maxIterations = 0) :
    fit solver inks samples opts = .ok (startParts inks points opts) := by
  have given : fitInputs inks samples opts = .ok points :=
    fitInputs_eq_ok_iff.mpr ⟨few, spectralBands, count, prepared⟩
  have inside := bandOrder_inside (fun s given => two_pos.trans_le (two_le_bands (made s given)))
    count
  rw [← startParts_bands_size prepared] at inside
  have layout (j : ℕ) : (fitProblem inks points opts j).layout = fitLayout inks opts := rfl
  have turns := fitTurns_still solver (channels_pos inks opts) (order_pos inks opts) layout
    (fun _ => still) initialBands_fresh inside opts
  rw [fit_eq, given, Except.bind]
  exact congrArg (Except.map _) turns

/-- The start of a fit is a model, when no limit is wrong. -/
theorem startParts_valid (few : inks.count ≤ maxInks)
    (count : (spectralCount opts.spectral : Except (ModelError ℝ) ℕ) = .ok spectralBands)
    (limit : ∀ l, opts.limit = some l → 0 < l) : (startParts inks points opts).Valid := by
  rw [← Scalar.real_zero] at limit
  have bands := (startParts inks points opts).spectralCount_eq
  change spectralCount opts.spectral = _ at bands
  rw [count] at bands
  split at bands
  · cases bands
  · rename_i spectral
    have bands := Except.ok.inj bands
    refine ⟨few, ⟨order_pos inks opts, ?_⟩, not_lt.mp spectral,
      bands ▸ startParts_bands_size prepared, fun b mem => (initialBands_fresh b mem).fits, limit⟩
    change opts.quality.transferOrder ≤ maxOrder
    cases opts.quality <;> decide

/-- At a measured corner every band has the target of the first measurement there. -/
theorem evaluate_start (close : 0 < opts.tuning.nearSquared) {comb : ℕ} (hc : comb < 2 ^ inks.count)
    {before after : List (Sample ℝ)} {s : Sample ℝ} (order : samples = before ++ s :: after)
    (sits : s.SitsAt (fitLayout inks opts) comb)
    (first : ∀ s' ∈ before, ¬s'.SitsAt (fitLayout inks opts) comb) {dev : Array ℝ}
    (corner : IsCorner (fitLayout inks opts) comb dev) :
    ∃ target, s.targets spectralBands = .ok target ∧
      ∀ j (hj : j < (startParts inks points opts).bands.size),
        evaluate (fitLayout inks opts) (startParts inks points opts).bands[j] dev =
          target.getD j 0 := by
  subst order
  obtain ⟨target, targets, primaries⟩ := initialBands_measured (l := fitLayout inks opts)
    (fitPoints_eq_ok prepared).2 hc close sits first inks.additive
  refine ⟨target, targets, fun j hj => ?_⟩
  have fits := (initialBands_fresh _ (Array.getElem_mem hj)).fits
  have value := (gradientOver_corner fits hc corner (zero_fits _)).2
  rw [primaries j _ (Array.getElem?_eq_getElem hj)] at value
  exact (Option.some.inj value).symm

/-- The colour and the spectrum at a measured corner are the first measurement there. -/
theorem lookup_start (close : 0 < opts.tuning.nearSquared) {comb : ℕ} (hc : comb < 2 ^ inks.count)
    {before after : List (Sample ℝ)} {s : Sample ℝ} (order : samples = before ++ s :: after)
    (sits : s.SitsAt (fitLayout inks opts) comb)
    (first : ∀ s' ∈ before, ¬s'.SitsAt (fitLayout inks opts) comb) {dev : Array ℝ}
    (corner : IsCorner (fitLayout inks opts) comb dev) :
    (Response.mk (startParts inks points opts) none).lookup dev = s.xyz ∧
      (spectralBands ≠ 0 → ∃ spectrum, s.spectrum = some spectrum ∧
        (Response.mk (startParts inks points opts) none).spectrum dev = spectrum.toList) := by
  obtain ⟨target, targets, values⟩ := evaluate_start prepared close hc order sits first corner
  obtain ⟨spectrum, rfl, size, given⟩ := targets_eq_ok targets
  have bands : (startParts inks points opts).bands.size = xyzBands + spectralBands :=
    startParts_bands_size prepared
  constructor
  · have value {j : ℕ} (hj : j < xyzBands) :
        (Response.mk (startParts inks points opts) none).bandValue j dev =
          (#[s.xyz.x, s.xyz.y, s.xyz.z] ++ spectrum).getD j 0 := by
      have hj : j < (startParts inks points opts).bands.size := bands ▸ Nat.lt_add_right _ hj
      rw [Response.bandValue, Array.getElem?_eq_getElem hj]
      exact values j hj
    change Xyz.mk _ _ _ = _
    rw [value (by decide), value (by decide), value (by decide)]
    simp [Array.getElem?_append]
  · intro spectral
    refine ⟨spectrum, given spectral, ?_⟩
    apply List.ext_getElem (by simp [Response.spectrum, bands, size])
    intro i hi hi'
    have hi' : i < spectrum.size := hi'
    have hj : xyzBands + i < (startParts inks points opts).bands.size := by
      rw [bands, ← size]
      exact Nat.add_lt_add_left hi' _
    have value := values (xyzBands + i) hj
    have layout : (startParts inks points opts).layout = fitLayout inks opts := rfl
    simpa [Response.spectrum, xyzBands, Array.getElem?_append, hi', layout] using value

end Prepared

/-- A fit without iterations is its start: the starts of a band from another are all the same, and
no stage moves a band. So the model gives the measurements at the corners of the device, the first
of several at a corner. -/
theorem fit_still_exact_at_corners (solver : Solver ℝ) (few : inks.count ≤ maxInks)
    (count : (spectralCount opts.spectral : Except (ModelError ℝ) ℕ) = .ok spectralBands)
    (made : ∀ s, opts.spectral = some s →
      SpectralShape.make s.bands s.startNm s.endNm s.norm = .ok s)
    (prepared : fitPoints inks.count spectralBands samples = .ok points)
    (still : opts.tuning.maxIterations = 0) :
    fit solver inks samples opts = .ok (startParts inks points opts) ∧
    (∀ b ∈ (startParts inks points opts).bands, ∀ source ∈ (startParts inks points opts).bands,
      { b with transfer := source.transfer, shape := source.shape } = b ∧
        { b with transfer := firstHarmonics (fitLayout inks opts) source.transfer } = b) ∧
    (∀ pb : BandProblem ℝ, pb.tuning = opts.tuning → ∀ b ∈ (startParts inks points opts).bands,
      ∀ stage ∈ stagesOf (fitLayout inks opts), ∀ tolerance,
        ∃ m, pb.minimize solver stage b tolerance = .ok (b, m)) ∧
    (0 < opts.tuning.nearSquared → ∀ model, Model.ofSamples solver inks samples opts = .ok model →
      ∀ comb < 2 ^ inks.count, ∀ before s after, samples = before ++ s :: after →
      s.SitsAt (fitLayout inks opts) comb → (∀ s' ∈ before, ¬s'.SitsAt (fitLayout inks opts) comb) →
      ∀ dev, IsCorner (fitLayout inks opts) comb dev →
        model.lookup dev = s.xyz ∧
        (opts.spectral.isSome → ∃ spectrum, s.spectrum = some spectrum ∧
          model.lookupSpectrum dev = .ok spectrum.toList)) := by
  have stays : fit solver inks samples opts = .ok (startParts inks points opts) :=
    fit_still prepared solver few count made still
  refine ⟨stays, ?_, ?_, ?_⟩
  · intro b mem source mem'
    exact (initialBands_fresh b mem).candidates (initialBands_fresh source mem')
  · intro pb tuning b mem stage own tolerance
    have fresh := initialBands_fresh b mem
    exact minimize_still solver (tuning ▸ still) (stage_params_nonempty (channels_pos inks opts)
      (order_pos inks opts) fresh.fits own) tolerance
  · intro close model fitted comb hc before s after order sits first dev corner
    obtain ⟨parts, fitted, build⟩ := ofSamples_eq_ok fitted
    obtain rfl := Except.ok.inj (stays.symm.trans fitted)
    obtain ⟨color, spectrum⟩ := lookup_start prepared close hc order sits first corner
    have response := (Model.of_build build).2.1
    rw [response]
    refine ⟨color, fun spectral => ?_⟩
    obtain ⟨shape, given⟩ := Option.isSome_iff_exists.mp spectral
    have bands : shape.bands = spectralBands := bands_eq_of_count (given ▸ count)
    obtain ⟨values, own, looked⟩ := spectrum (bands ▸ (two_pos.trans_le
      (two_le_bands (made shape given))).ne')
    have spectral : (startParts inks points opts).spectral = some shape := given
    refine ⟨values, own, ?_⟩
    rw [Response.lookupSpectrum, spectral, looked]

end Fit

/-- The black of a display. -/
def lampBlack {α : Type} [Scalar α] : Sample α := ⟨#[0], ⟨0, 0, 1⟩, some #[0, 5], 1⟩

/-- The white of a display, measured beyond its range. -/
def lampWhite {α : Type} [Scalar α] : Sample α := ⟨#[2], ⟨96, 100, 82⟩, some #[70, 90], 1⟩

/-- The black of a display and its white, which is measured again. -/
def lampSamples {α : Type} [Scalar α] : List (Sample α) :=
  [lampBlack, lampWhite, ⟨#[1], ⟨90, 94, 77⟩, some #[66, 85], 1⟩]

/-- A fit of a spectral model that only starts. -/
noncomputable def startOnly : FitOptions ℝ where
  verbose := false
  quality := .low
  limit := none
  shaped := true
  spectral := greyLamp.spectral
  instrument := none
  earlyExit := none
  tuning := { Tuning.default with maxIterations := 0 }

theorem lampSamples_prepared :
    ∃ points, fitPoints 1 2 (lampSamples : List (Sample ℝ)) = .ok points := by
  refine exists_preparePoints (fun s mem => ?_) 0
  have weight : @OfNat.ofNat ℝ 0 Scalar.instOfNat ≤ @OfNat.ofNat ℝ 1 Scalar.instOfNat := by
    rw [Scalar.real_zero, Scalar.real_one]
    exact zero_le_one
  have finite (x : ℝ) : Scalar.isFinite x = true := rfl
  simp only [lampSamples, List.mem_cons, List.not_mem_nil, or_false] at mem
  rcases mem with rfl | rfl | rfl <;>
    simp [lampBlack, lampWhite, Sample.prepare, Sample.targets, weight, finite, Except.map]

theorem fit_still_exact_at_corners_lampSamples :
    ∃ model, Model.ofSamples stillSolver (greyLamp : Parts ℝ).inks lampSamples startOnly =
        .ok model ∧
      model.lookup #[1] = ⟨96, 100, 82⟩ ∧ model.lookupSpectrum #[1] = .ok [70, 90] := by
  let lamp : InkSet := (greyLamp : Parts ℝ).inks
  have one : lamp.count = 1 := by decide
  have few : lamp.count ≤ maxInks := greyLamp_valid.inks
  obtain ⟨points, prepared⟩ : ∃ points, fitPoints lamp.count 2 lampSamples = .ok points :=
    one ▸ lampSamples_prepared
  have made (s : SpectralShape ℝ) (given : startOnly.spectral = some s) :
      SpectralShape.make s.bands s.startNm s.endNm s.norm = .ok s :=
    (greyLamp_storable.spectral s given).made
  obtain ⟨fit, -, -, corners⟩ := fit_still_exact_at_corners stillSolver few rfl made prepared
    rfl
  have valid : (startParts lamp points startOnly).Valid :=
    startParts_valid prepared few rfl nofun
  have build : Model.build stillSolver (startParts lamp points startOnly) startOnly.tuning =
      .ok ⟨⟨startParts lamp points startOnly, none⟩, startOnly.tuning,
        displayNeutrals ⟨startParts lamp points startOnly, none⟩⟩ :=
    Model.build_eq_ok valid (if_pos rfl)
  have fitted : ∃ model, Model.ofSamples stillSolver lamp lampSamples startOnly = .ok model := by
    simp only [Model.ofSamples, fit, bind, Except.bind, build]
    exact ⟨_, rfl⟩
  obtain ⟨model, fitted⟩ := fitted
  have close : (0 : ℝ) < startOnly.tuning.nearSquared := by
    change (0 : ℝ) < OfScientific.ofScientific 2 true 2
    norm_num
  have corner (x : ℝ) : IsCorner (fitLayout lamp startOnly) 1 #[x] ↔ x = 1 := by
    change (∀ m < lamp.count, _) ↔ _
    rw [one]
    simp [cornerValue]
  have sits {s : Sample ℝ} {x : ℝ} (dev : s.dev = #[x]) :
      s.SitsAt (fitLayout lamp startOnly) 1 ↔ saturate x = 1 := by
    rw [Sample.SitsAt, dev, ← corner]
    simp
  have black : ¬lampBlack.SitsAt (fitLayout lamp startOnly) 1 := by
    rw [sits rfl, Scalar.real_zero, saturate_of_mem ⟨le_rfl, zero_le_one⟩]
    exact zero_ne_one
  have white : lampWhite.SitsAt (fitLayout lamp startOnly) 1 := by
    rw [sits rfl]
    change ((2 : ℝ) ⊔ @OfNat.ofNat ℝ 0 Scalar.instOfNat) ⊓ @OfNat.ofNat ℝ 1 Scalar.instOfNat = 1
    rw [Scalar.real_zero, Scalar.real_one]
    norm_num
  obtain ⟨color, spectrum⟩ := corners close model fitted 1 (by decide) [lampBlack] lampWhite _ rfl
    white (List.forall_mem_singleton.mpr black) #[1] ((corner _).mpr rfl)
  obtain ⟨values, own, looked⟩ := spectrum rfl
  cases own
  exact ⟨model, fitted, color, looked⟩

end InkModel
