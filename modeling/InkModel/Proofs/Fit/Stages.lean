import InkModel.Proofs.Fit.Course
import InkModel.Proofs.Fit.Objective
import InkModel.Proofs.Fit.Schedule

/-! # What a stage leaves

A stage moves only its own parameters, and never to a worse objective. So every band keeps the
sizes of its layout in the course of a fit, and no stage of it is refused.
-/

namespace InkModel

/-- A solver whose gradient cycles may propose any points, with the objectives there. -/
def Solver.IsTruthful (solver : Solver ℝ) : Prop :=
  ∀ pb n, IsTruthfulCycle solver.cycle pb n

/-- What a stage does to a band. -/
structure StageEffect (pb : BandProblem ℝ) (stage : Stage) (b b' : Band ℝ) (m : Minimum ℝ) :
    Prop where
  others : ∀ group ≠ stage, group.params b' = group.params b
  sizes : ∀ group : Stage, (group.params b').size = (group.params b).size
  descends : pb.objective stage b' ≤ pb.objective stage b
  value : m.value = pb.objective stage b'

theorem StageEffect.fits {pb : BandProblem ℝ} {stage : Stage} {b b' : Band ℝ} {m : Minimum ℝ}
    (effect : StageEffect pb stage b b' m) {l : Layout} (fits : b.Fits l) : b'.Fits l :=
  ⟨(effect.sizes .transfer).trans fits.1, (effect.sizes .shape).trans fits.2.1,
    (effect.sizes .primaries).trans fits.2.2⟩

section Inputs

variable {α : Type} [Scalar α]

variable {inks : InkSet} {samples : List (Sample α)} {opts : FitOptions α}

theorem preparePoints_ne_minimize (n spectralBands index : ℕ) (samples : List (Sample α))
    (e : MinimizeError α) :
    preparePoints n spectralBands index samples ≠ .error (.minimize e) := by
  induction samples generalizing index with
  | nil => simp [preparePoints]
  | cons s samples ih =>
      rw [preparePoints]
      split
      · simp
      · cases rest : preparePoints n spectralBands (index + 1) samples with
        | error cause =>
            intro same
            cases same
            exact ih _ rest
        | ok points => simp [Except.map]

theorem fitInputs_ne_minimize (e : MinimizeError α) :
    fitInputs inks samples opts ≠ .error (.minimize e) := by
  intro refused
  simp only [fitInputs, bind, Except.bind] at refused
  split at refused
  · rename_i inksRefused
    cases refused
    unfold checkInks at inksRefused
    split at inksRefused <;> cases inksRefused
  · split at refused
    · rename_i bandsRefused
      cases refused
      unfold spectralCount at bandsRefused
      split at bandsRefused
      · cases bandsRefused
      · split at bandsRefused <;> cases bandsRefused
    · unfold fitPoints at refused
      split at refused
      · cases refused
      · exact preparePoints_ne_minimize _ _ _ _ e refused

end Inputs

section Exact

variable {solver : Solver ℝ} (truthful : solver.IsTruthful)
include truthful

/-- A stage with parameters never fails. -/
theorem minimize_effect (pb : BandProblem ℝ) {stage : Stage} {b : Band ℝ}
    (nonempty : (stage.params b).size ≠ 0) (tolerance : ℝ) :
    ∃ b' m, pb.minimize solver stage b tolerance = .ok (b', m) ∧ StageEffect pb stage b b' m := by
  have radii : (stage.params b).size =
      (Array.replicate (stage.params b).size (stage.radius : ℝ)).size := Array.size_replicate.symm
  obtain ⟨m, found, size, value, descends⟩ := conjugateGradient_descends nonempty radii
    (truthful ((pb.stageProblem stage b).scaled _) _) tolerance pb.tuning.maxIterations
  have back : stage.replace b (stage.params b) = b := by cases stage <;> rfl
  refine ⟨stage.replace b m.point, m, ?_, ?_, ?_, ?_, value⟩
  · rw [BandProblem.minimize, found]
    rfl
  · intro group other
    exact BandProblem.stage_params_replace_other other b m.point
  · intro group
    by_cases same : group = stage
    · rw [same, BandProblem.stage_params_replace, size]
    · rw [BandProblem.stage_params_replace_other same]
  · calc
      pb.objective stage (stage.replace b m.point) = m.value := value.symm
      _ ≤ (pb.stageProblem stage b).cost (stage.params b) := descends
      _ = pb.objective stage b := congrArg (pb.objective stage) back

variable {l : Layout}

/-- A course of stages of a layout never fails, and the band keeps the sizes of the layout. -/
theorem Course.fits (channels : 0 < l.channels) (order : 0 < l.order) {b : Band ℝ}
    {calls : List (StageCall ℝ)} {result : Except (ModelError ℝ) (Band ℝ)}
    (course : Course solver b calls result) (own : ∀ call ∈ calls, call.stage ∈ stagesOf l)
    (fits : b.Fits l) :
    (∀ call ∈ calls, call.start.Fits l) ∧ ∃ b', result = .ok b' ∧ b'.Fits l := by
  induction course with
  | done b => exact ⟨nofun, b, rfl, fits⟩
  | @fails call e answer =>
      obtain ⟨first, -⟩ := List.forall_mem_cons.mp own
      obtain ⟨b', m, found, -⟩ := minimize_effect truthful call.problem
        (stage_params_nonempty channels order fits first) call.tolerance
      exact absurd (found.symm.trans answer) nofun
  | @goesOn call b m calls result answer rest ih =>
      obtain ⟨first, others⟩ := List.forall_mem_cons.mp own
      obtain ⟨b', m', found, effect⟩ := minimize_effect truthful call.problem
        (stage_params_nonempty channels order fits first) call.tolerance
      have same : (b', m') = (b, m) := Except.ok.inj (found.symm.trans answer)
      cases same
      obtain ⟨starts, ends⟩ := ih others (effect.fits fits)
      exact ⟨List.forall_mem_cons.mpr ⟨fits, starts⟩, ends⟩

omit truthful in
theorem warmStart_fits {pb : BandProblem ℝ} {b source : Band ℝ} (fits : b.Fits l)
    (same : source.Fits l) : (warmStart pb b source).Fits l := by
  unfold warmStart
  dsimp only
  split
  · exact ⟨same.1, same.2.1, fits.2.2⟩
  · split
    · exact ⟨by simp [firstHarmonics, same.1], fits.2.1, fits.2.2⟩
    · exact fits

theorem fitBand_fits {pb : BandProblem ℝ} (channels : 0 < pb.layout.channels)
    (order : 0 < pb.layout.order) (opts : FitOptions ℝ) (passes : ℕ) {b : Band ℝ}
    {source : Option (Band ℝ)} (fits : b.Fits pb.layout)
    (same : ∀ s ∈ source, s.Fits pb.layout) :
    (∀ call ∈ bandCalls solver pb opts passes b source, call.start.Fits pb.layout) ∧
      ∃ fitted, fitBand solver pb opts passes b source = .ok fitted ∧
        fitted.band.Fits pb.layout := by
  have start : (bandStart pb b source).Fits pb.layout := by
    cases source with
    | none => exact fits
    | some s => exact warmStart_fits fits (same s rfl)
  obtain ⟨starts, b', result, ends⟩ :=
    (fitBand_course solver pb opts passes b source).fits truthful channels order
      (fun call mem => (mem_passCalls mem).2) start
  cases ran : fitBand solver pb opts passes b source with
  | error e =>
      rw [ran] at result
      cases result
  | ok fitted =>
      rw [ran] at result
      cases result
      exact ⟨starts, fitted, rfl, ends⟩

theorem fitTurns_fits (channels : 0 < l.channels) (order : 0 < l.order)
    {problem : ℕ → BandProblem ℝ} (layout : ∀ j, (problem j).layout = l) (opts : FitOptions ℝ)
    {bands : Array (Band ℝ)} (fits : ∀ b ∈ bands, b.Fits l) {turns : List Turn}
    (inside : ∀ turn ∈ turns, turn.band < bands.size ∧ ∀ s ∈ turn.source, s < bands.size) :
    (∀ call ∈ turnCalls solver opts problem bands turns, call.problem.layout = l ∧
      call.stage ∈ stagesOf l ∧ call.start.Fits l) ∧
      ∃ bands', fitTurns solver opts problem bands turns = .ok bands' ∧ ∀ b ∈ bands', b.Fits l := by
  induction turns generalizing bands with
  | nil => exact ⟨nofun, bands, rfl, fits⟩
  | cons turn turns ih =>
      obtain ⟨first, others⟩ := List.forall_mem_cons.mp inside
      obtain ⟨own, same⟩ := turn_bands fits first ⟨#[], #[], #[]⟩
      obtain ⟨starts, fitted, ran, ends⟩ := fitBand_fits truthful (layout turn.band ▸ channels)
        (layout turn.band ▸ order) opts opts.quality.passes (layout turn.band ▸ own)
        (layout turn.band ▸ same)
      rw [turnCalls, fitTurns, ran]
      dsimp only
      have kept : ∀ b ∈ bands.setIfInBounds turn.band fitted.band, b.Fits l := by
        intro b mem
        rcases Array.mem_or_eq_of_mem_setIfInBounds mem with old | rfl
        · exact fits b old
        · exact layout turn.band ▸ ends
      obtain ⟨later, bands', rest, all⟩ := ih kept (by simpa using others)
      refine ⟨fun call mem => ?_, bands', rest, all⟩
      rcases List.mem_append.mp mem with own | other
      · obtain ⟨problem_eq, stage⟩ := mem_passCalls own
        rw [← layout turn.band]
        exact ⟨congrArg BandProblem.layout problem_eq, stage, starts call own⟩
      · exact later call other

end Exact

section Fit

variable {solver : Solver ℝ} {inks : InkSet} {samples : List (Sample ℝ)} {opts : FitOptions ℝ}

variable (solver inks samples opts) in
/-- The minimizations of a fit. -/
noncomputable def fitCalls : List (StageCall ℝ) :=
  match fitInputs inks samples opts with
  | .error _ => []
  | .ok points =>
    turnCalls solver opts (fitProblem inks points opts) (startParts inks points opts).bands
      (bandOrder opts.spectral)

theorem fitCalls_fits (truthful : solver.IsTruthful)
    (positive : ∀ s, opts.spectral = some s → 0 < s.bands) {points : List (FitPoint ℝ)}
    (given : fitInputs inks samples opts = .ok points) :
    (∀ call ∈ fitCalls solver inks samples opts, call.problem.layout = fitLayout inks opts ∧
      call.stage ∈ stagesOf (fitLayout inks opts) ∧ call.start.Fits (fitLayout inks opts)) ∧
      ∃ bands, fit solver inks samples opts = .ok { startParts inks points opts with bands } ∧
        ∀ b ∈ bands, b.Fits (fitLayout inks opts) := by
  obtain ⟨-, spectralBands, count, prepared⟩ := fitInputs_eq_ok_iff.mp given
  have inside := bandOrder_inside positive count
  have size : (startParts inks points opts).bands.size = xyzBands + spectralBands :=
    startParts_bands_size prepared
  rw [← size] at inside
  have start : ∀ b ∈ (startParts inks points opts).bands, b.Fits (fitLayout inks opts) :=
    fun b mem => (initialBands_fresh b mem).fits
  have layout (j : ℕ) : (fitProblem inks points opts j).layout = fitLayout inks opts := rfl
  obtain ⟨calls, bands, ran, fits⟩ := fitTurns_fits truthful (channels_pos inks opts)
    (order_pos inks opts) layout opts start inside
  rw [fitCalls, fit_eq, given, Except.bind, ran]
  exact ⟨calls, bands, rfl, fits⟩

/-- A stage with parameters moves only these, and never to a worse objective, whatever points the
solver proposes. So in the course of a fit every band has the sizes of its layout, and no stage
is refused. -/
theorem fit_stage_effects (solver : Solver ℝ) (truthful : solver.IsTruthful) :
    (∀ pb stage b tolerance, b.Fits pb.layout → (stage.params b).size ≠ 0 →
      ∃ b' m, pb.minimize solver stage b tolerance = .ok (b', m) ∧ b'.Fits pb.layout ∧
        StageEffect pb stage b b' m) ∧
    ∀ inks samples (opts : FitOptions ℝ), (∀ s, opts.spectral = some s → 0 < s.bands) →
      (∀ call ∈ fitCalls solver inks samples opts, call.problem.layout = fitLayout inks opts ∧
        call.start.Fits (fitLayout inks opts) ∧
        ∃ b m, call.answer solver = .ok (b, m) ∧ b.Fits (fitLayout inks opts) ∧
          StageEffect call.problem call.stage call.start b m) ∧
      (∀ e, fit solver inks samples opts ≠ .error (.minimize e)) ∧
      ∀ parts, fit solver inks samples opts = .ok parts → ∀ b ∈ parts.bands, b.Fits parts.layout := by
  refine ⟨fun pb stage b tolerance fits nonempty => ?_, fun inks samples opts positive => ?_⟩
  · obtain ⟨b', m, found, effect⟩ := minimize_effect truthful pb nonempty tolerance
    exact ⟨b', m, found, effect.fits fits, effect⟩
  · cases given : fitInputs inks samples opts with
    | error cause =>
        rw [fitCalls, fit_eq, given]
        refine ⟨nofun, fun e refused => ?_, nofun⟩
        cases refused
        exact fitInputs_ne_minimize e given
    | ok points =>
        obtain ⟨calls, bands, fitted, fits⟩ := fitCalls_fits truthful positive given
        rw [fitted]
        refine ⟨fun call mem => ?_, nofun, fun parts same => ?_⟩
        · obtain ⟨layout, stage, start⟩ := calls call mem
          obtain ⟨b, m, found, effect⟩ := minimize_effect truthful call.problem
            (stage_params_nonempty (channels_pos inks opts) (order_pos inks opts) start stage)
            call.tolerance
          exact ⟨layout, start, b, m, found, effect.fits start, effect⟩
        · cases same
          exact fits

end Fit

/-- One step of the slope's length against it. It fails where there is no slope. -/
noncomputable def slopeStep : CycleSearch ℝ := fun pb q steps =>
  let slope := pb.slope q
  if slope.all fun x => decide (x = 0) then .error "Search direction must be a descent direction"
  else
    let best := q.mapIdx fun i x => x - slope.getD i 0
    .ok ⟨best, pb.cost best, min 1 steps, true⟩

noncomputable def slopeSolver : Solver ℝ := { stillSolver with cycle := slopeStep }

theorem slopeStep_single {pb : Problem ℝ} {x slope : ℝ} (own : pb.slope #[x] = #[slope])
    (steps : ℕ) : slopeStep pb #[x] steps =
      if slope = 0 then .error "Search direction must be a descent direction"
      else .ok ⟨#[x - slope], pb.cost #[x - slope], min 1 steps, true⟩ := by
  simp [slopeStep, own]

theorem slopeSolver_truthful : slopeSolver.IsTruthful := by
  intro pb n
  have answer {q steps run} (found : slopeStep pb q steps = .ok run) :
      run.best.size = q.size ∧ run.value = pb.cost run.best := by
    unfold slopeStep at found
    dsimp only at found
    split at found
    · cases found
    · cases found
      exact ⟨Array.size_mapIdx, rfl⟩
  exact ⟨fun size found => (answer found).1.trans size, fun _ found _ => (answer found).2⟩

/-- A fit to no points, which draws the only transfer coefficient to 0. -/
def drawnFit {α : Type} [Scalar α] : BandProblem α where
  layout := ⟨1, 1, false⟩
  points := []
  band := 0
  tuning := { Tuning.default with lowHarmonicWeight := 2 }
  anchors := #[0, 0]

noncomputable def drawnBand (c : ℝ) : Band ℝ := ⟨#[c], #[], #[0, 0]⟩

theorem drawnBand_fits (c : ℝ) : (drawnBand c).Fits (drawnFit : BandProblem ℝ).layout :=
  ⟨rfl, rfl, rfl⟩

theorem drawnFit_weight : (drawnFit : BandProblem ℝ).tuning.harmonicWeight 0 = 2 := by
  have low : (Scalar.ofNat 0 : ℝ) ≤ @OfNat.ofNat ℝ 1 Scalar.instOfNat := by
    change ((0 : ℕ) : ℝ) ≤ ((1 : ℕ) : ℝ)
    norm_num
  exact (if_pos low).trans (Scalar.real_ofNat 2)

theorem drawnFit_cost (c : ℝ) :
    (drawnFit.stageProblem .transfer (drawnBand 1)).cost #[c] = 2 * c * c := by
  change drawnFit.objective .transfer (drawnBand c) = 2 * c * c
  have penalty := BandProblem.penalty_value (drawnBand_fits c) rfl .transfer
  have count : (Stage.transfer.params (drawnBand c)).size = 1 := rfl
  have error : drawnFit.error (drawnBand c) = 0 := by simp [BandProblem.error_eq, drawnFit]
  rw [BandProblem.objective, error, penalty, count, Finset.sum_range_one, zero_add]
  change drawnFit.tuning.harmonicWeight 0 * c * c = _
  rw [drawnFit_weight]

theorem drawnFit_slope (c : ℝ) :
    (drawnFit.stageProblem .transfer (drawnBand 1)).slope #[c] = #[4 * c] := by
  have anchored : (drawnFit : BandProblem ℝ).anchors.size = 2 ^ 1 := rfl
  have room : (Array.replicate 1 (@OfNat.ofNat ℝ 0 Scalar.instOfNat)).size =
      (Stage.transfer.params (drawnBand c)).size := rfl
  refine (congrArg Sloped.slopes (BandProblem.objectiveSlopes_eq (drawnBand_fits c) anchored
    .transfer room (zero_fits _))).trans ?_
  change #[([] : List ℝ).sum + 2 * drawnFit.tuning.harmonicWeight 0 * c] = _
  rw [drawnFit_weight, List.sum_nil, zero_add]
  norm_num

/-- The search goes to 0 in one step. -/
theorem slopeStep_drawnFit (x : ℝ) (steps : ℕ) :
    slopeStep ((drawnFit.stageProblem .transfer (drawnBand 1)).scaled #[1 / 2]) #[x] steps =
      if x = 0 then .error "Search direction must be a descent direction"
      else .ok ⟨#[0], 0, min 1 steps, true⟩ := by
  have slope : ((drawnFit.stageProblem .transfer (drawnBand 1)).scaled #[1 / 2]).slope #[x] =
      #[x] := by
    simp only [Problem.scaled, List.zipWith_toArray, List.zipWith_cons_cons, List.zipWith_nil_left,
      drawnFit_slope]
    congr 2
    ring
  have value : ((drawnFit.stageProblem .transfer (drawnBand 1)).scaled #[1 / 2]).cost #[0] = 0 := by
    simp [Problem.scaled, drawnFit_cost]
  rw [slopeStep_single slope, sub_self, value]

/-- A search that goes to 0 in one step ends there. -/
theorem cyclesFrom_slopeStep {pb : Problem ℝ} {maxIter : ℕ} (more : 1 < maxIter)
    (step : ∀ x steps, slopeStep pb #[x] steps =
      if x = 0 then .error "Search direction must be a descent direction"
      else .ok ⟨#[0], 0, min 1 steps, true⟩) :
    cyclesFrom slopeStep pb 0 maxIter 1 0 #[2] 2 = ⟨#[0], 0, 1, true⟩ := by
  have ends : cyclesFrom slopeStep pb 0 maxIter 1 1 #[0] 0 = ⟨#[0], 0, 1, true⟩ := by
    rw [cyclesFrom, dif_pos more, step]
    simp
  rw [cyclesFrom, dif_pos (zero_lt_one.trans more), step]
  have far : cycleStalled (0 : ℝ) 2 0 = false := by
    have gain : ¬2 * |(2 : ℝ) - 0| ≤ 0 * (|2| + |0| + cycleEpsilon) := by norm_num
    exact decide_eq_false gain
  simp [ends, far]

theorem transferRadius_usable : usableRadius (Stage.transfer.radius : ℝ) = 1 / 2 := by
  have half : (Stage.transfer.radius : ℝ) = 1 / 2 := by
    change OfScientific.ofScientific 5 true 1 = (1 / 2 : ℝ)
    norm_num
  have positive : (0 : ℝ) < Stage.transfer.radius := by
    rw [half]
    exact one_half_pos
  rw [usableRadius, Scalar.real_zero, if_pos positive, half]

/-- The stage of the transfer coefficient leaves 0. -/
theorem drawnFit_minimize : drawnFit.minimize slopeSolver .transfer (drawnBand 1) 0 =
    .ok (drawnBand 0, ⟨#[0], 0, 1, true⟩) := by
  let radii : Array ℝ := Array.replicate 1 Stage.transfer.radius
  have scale : radii.map usableRadius = #[1 / 2] := by
    rw [Array.map_replicate, transferRadius_usable]
    rfl
  have nonempty : #[(1 : ℝ)].size ≠ 0 := one_ne_zero
  obtain ⟨m, found, run⟩ := conjugateGradient_eq slopeStep
    (drawnFit.stageProblem .transfer (drawnBand 1)) nonempty (rfl : _ = radii.size) 0
    (drawnFit : BandProblem ℝ).tuning.maxIterations
  have start : Array.zipWith (· / ·) #[(1 : ℝ)] #[1 / 2] = #[2] := by simp
  rw [scale, start, drawnFit_cost, mul_one, mul_one] at found
  have ends : m = ⟨#[0], 0, 1, true⟩ :=
    found.trans (cyclesFrom_slopeStep (by decide) slopeStep_drawnFit)
  have point : overwrite #[(1 : ℝ)] (Array.zipWith (· * ·) #[0] #[1 / 2]) = #[0] := by
    simp [overwrite]
  rw [scale, ends, point] at run
  exact congrArg (Except.map fun m => (Stage.transfer.replace (drawnBand 1) m.point, m)) run

theorem fit_stage_effects_drawnFit :
    drawnFit.minimize slopeSolver .transfer (drawnBand 1) 0 =
      .ok (drawnBand 0, ⟨#[0], 0, 1, true⟩) ∧
    StageEffect drawnFit .transfer (drawnBand 1) (drawnBand 0) ⟨#[0], 0, 1, true⟩ ∧
    ∃ parts, fit slopeSolver (greyLamp : Parts ℝ).inks lampSamples startOnly = .ok parts ∧
      ∀ b ∈ parts.bands, b.Fits parts.layout := by
  obtain ⟨stage, run⟩ := fit_stage_effects slopeSolver slopeSolver_truthful
  refine ⟨drawnFit_minimize, ?_, ?_⟩
  · obtain ⟨b, m, found, -, effect⟩ := stage drawnFit .transfer (drawnBand 1) 0
      (drawnBand_fits 1) one_ne_zero
    cases drawnFit_minimize.symm.trans found
    exact effect
  · have made (s : SpectralShape ℝ) (given : startOnly.spectral = some s) :
        SpectralShape.make s.bands s.startNm s.endNm s.norm = .ok s :=
      (greyLamp_storable.spectral s given).made
    obtain ⟨points, prepared⟩ : ∃ points,
        fitPoints (greyLamp : Parts ℝ).inks.count 2 lampSamples = .ok points := lampSamples_prepared
    have fitted := fit_still prepared slopeSolver greyLamp_valid.inks rfl made rfl
    obtain ⟨-, -, fits⟩ := run (greyLamp : Parts ℝ).inks lampSamples startOnly
      fun s given => two_pos.trans_le (two_le_bands (made s given))
    exact ⟨_, fitted, fits _ fitted⟩

end InkModel
