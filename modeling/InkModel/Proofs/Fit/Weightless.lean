import InkModel.Proofs.Device.Scratch
import InkModel.Proofs.Fit.Objective
import InkModel.Proofs.Fit.Nearest
import InkModel.Proofs.Fit.Stages

/-! # Samples of weight zero

The objectives of a fit weigh their points, so a point of weight zero does not change them, nor
their slopes, at any parameters. The start of a fit does not look at weights: a primary starts at
the nearest sample, whatever that weighs. So a sample of weight zero has no influence on a fit from
given starting parameters, and none on these when it is passed over at every combination.
-/

namespace InkModel

/-! Objectives that agree. -/

namespace BandProblem

section Agree

variable {α : Type} [Scalar α]

/-- Problems whose stages are the same, whatever their points are. -/
structure Agrees (pb pb' : BandProblem α) : Prop where
  layout : pb.layout = pb'.layout
  tuning : pb.tuning = pb'.tuning
  error : pb.error = pb'.error
  stageProblem : pb.stageProblem = pb'.stageProblem

variable {pb pb' : BandProblem α} (solver : Solver α) (agrees : Agrees pb pb')
include agrees

theorem Agrees.minimize_eq : pb.minimize solver = pb'.minimize solver := by
  funext stage b tolerance
  simp only [minimize, agrees.stageProblem, agrees.tuning]

theorem Agrees.runStages_eq (tolerance : α) (b : Band α) (stages : List Stage) :
    runStages solver pb tolerance b stages = runStages solver pb' tolerance b stages := by
  induction stages generalizing b with
  | nil => rfl
  | cons stage stages ih => simp only [runStages, agrees.minimize_eq, ih]

theorem Agrees.runPasses_eq (earlyExit : Option α) (passes : ℕ) (tolerance : α) (last : Option α)
    (b : Band α) : runPasses solver pb earlyExit passes tolerance last b =
      runPasses solver pb' earlyExit passes tolerance last b := by
  induction passes generalizing tolerance last b with
  | zero => simp only [runPasses, agrees.error]
  | succ passes ih =>
      simp only [runPasses, agrees.runStages_eq, agrees.layout, agrees.tuning, agrees.error, ih]

theorem Agrees.fitBand_eq (opts : FitOptions α) (passes : ℕ) (b : Band α)
    (source : Option (Band α)) :
    fitBand solver pb opts passes b source = fitBand solver pb' opts passes b source := by
  have start (source : Band α) : warmStart pb b source = warmStart pb' b source := by
    simp only [warmStart, agrees.error, agrees.layout]
  simp only [fitBand, start, agrees.error, agrees.tuning, agrees.runPasses_eq]

omit agrees in
theorem fitTurns_agree {problem problem' : ℕ → BandProblem α}
    (agrees : ∀ j, Agrees (problem j) (problem' j)) (opts : FitOptions α) (bands : Array (Band α))
    (turns : List Turn) :
    fitTurns solver opts problem bands turns = fitTurns solver opts problem' bands turns := by
  induction turns generalizing bands with
  | nil => rfl
  | cons turn turns ih => simp only [fitTurns, (agrees _).fitBand_eq, ih]

end Agree

/-! A point of weight zero. -/

section Weightless

variable (pb : BandProblem ℝ) {before after : List (FitPoint ℝ)} {p : FitPoint ℝ}

/-- The same problem with other points. -/
def withPoints (points : List (FitPoint ℝ)) : BandProblem ℝ :=
  { pb with points }

theorem pointError_weightless (weightless : p.weight = 0) (b : Band ℝ) : pb.pointError b p = 0 := by
  simp [pointError, weightless]

theorem pointEffect_weightless (weightless : p.weight = 0) (b : Band ℝ) :
    pb.pointEffect b p = 0 := by
  simp [pointEffect, weightless]

theorem weightSum_weightless (weightless : p.weight = 0) :
    (pb.withPoints (before ++ p :: after)).weightSum =
      (pb.withPoints (before ++ after)).weightSum := by
  simp [weightSum, withPoints, Scalar.real_sum, weightless]

theorem error_weightless (weightless : p.weight = 0) :
    (pb.withPoints (before ++ p :: after)).error = (pb.withPoints (before ++ after)).error := by
  funext b
  have sums : ((before ++ p :: after).map (pb.pointError b)).sum =
      ((before ++ after).map (pb.pointError b)).sum := by
    simp [pb.pointError_weightless weightless]
  rw [error_eq, error_eq, pb.weightSum_weightless weightless]
  exact congrArg (· / _) sums

/-- The sums with the error of a point and its slopes, at any parameters. -/
noncomputable def addGradient (stage : Stage) (b : Band ℝ) (sum : Sloped ℝ)
    (p : FitPoint ℝ) : Sloped ℝ :=
  ⟨sum.value + pb.pointError b p, Array.zipWith (fun o s => o + pb.pointEffect b p * s) sum.slopes
    (stage.slopes (gradient pb.layout b p.dev))⟩

theorem foldl_addPoint_clean (stage : Stage) {b : Band ℝ} (points : List (FitPoint ℝ))
    (sum : Sloped ℝ) {old : Gradient ℝ} (clean : old.IsClean pb.layout b) :
    (points.foldl (pb.addPoint stage b pb.weightSum) (sum, old)).1 =
      points.foldl (pb.addGradient stage b) sum := by
  induction points generalizing sum old with
  | nil => rfl
  | cons p points ih =>
      have value : (gradient pb.layout b p.dev).value = evaluate pb.layout b p.dev :=
        forwardPass_value pb.layout b p.dev
      have step : pb.addPoint stage b pb.weightSum (sum, old) p =
          (pb.addGradient stage b sum p, gradient pb.layout b p.dev) := by
        rw [addPoint, gradientOver_clean p.dev clean, value, addGradient, pointError, sq, mul_assoc]
        rfl
      rw [List.foldl_cons, List.foldl_cons, step, ih _ (gradient_isClean _ _ _)]

theorem slopes_size_eq {l : Layout} {g g' : Gradient ℝ} (fits : g.Fits l) (fits' : g'.Fits l)
    (stage : Stage) : (stage.slopes g).size = (stage.slopes g').size := by
  cases stage with
  | transfer => exact fits.2.1.trans fits'.2.1.symm
  | shape => exact fits.2.2.1.trans fits'.2.2.1.symm
  | primaries => exact fits.2.2.2.trans fits'.2.2.2.symm

/-- Beside another point, a point of weight zero adds nothing: the tables of slopes are cut to the
size of the parameters by either. -/
theorem foldl_addGradient_weightless (weightless : p.weight = 0) (others : before ++ after ≠ [])
    (stage : Stage) (b : Band ℝ) (sum : Sloped ℝ) :
    (before ++ p :: after).foldl (pb.addGradient stage b) sum =
      (before ++ after).foldl (pb.addGradient stage b) sum := by
  have error := pb.pointError_weightless weightless b
  have effect := pb.pointEffect_weightless weightless b
  have size (q : FitPoint ℝ) : (stage.slopes (gradient pb.layout b p.dev)).size =
      (stage.slopes (gradient pb.layout b q.dev)).size :=
    slopes_size_eq (gradient_isClean _ _ _).fits (gradient_isClean _ _ _).fits stage
  have skip (sum : Sloped ℝ) (q : FitPoint ℝ) :
      pb.addGradient stage b (pb.addGradient stage b sum p) q = pb.addGradient stage b sum q ∧
        pb.addGradient stage b (pb.addGradient stage b sum q) p = pb.addGradient stage b sum q := by
    simp only [addGradient, error, effect, add_zero, zero_mul, Sloped.mk.injEq, true_and]
    constructor
    · apply Array.ext (by simp [size q])
      intro i h₁ h₂
      simp
    · apply Array.ext (by simp [size q])
      intro i h₁ h₂
      simp
  rw [List.foldl_append, List.foldl_append, List.foldl_cons]
  cases after with
  | cons q after => rw [List.foldl_cons, List.foldl_cons, (skip _ q).1]
  | nil =>
      obtain rfl | ⟨first, q, rfl⟩ := before.eq_nil_or_concat'
      · exact absurd rfl others
      · rw [List.foldl_append, List.foldl_cons, List.foldl_nil, List.foldl_nil, List.foldl_nil]
        exact (skip _ q).2

theorem objectiveSlopes_clean (stage : Stage) {b : Band ℝ} (out : Array ℝ) {scratch : Gradient ℝ}
    (clean : scratch.IsClean pb.layout b) :
    pb.objectiveSlopes stage b out scratch =
      let sum := pb.points.foldl (pb.addGradient stage b) ⟨0, out.map fun _ => 0⟩
      ⟨sum.value / pb.weightSum + (pb.penalty stage b).value,
        Array.zipWith (· + ·) sum.slopes (pb.penalty stage b).slopes⟩ := by
  rw [objectiveSlopes]
  dsimp only
  rw [pb.foldl_addPoint_clean stage _ _ clean, Scalar.real_zero]

/-- The slopes of an objective do not see a point of weight zero, at any parameters. -/
theorem objectiveSlopes_weightless (weightless : p.weight = 0) (others : before ++ after ≠ [])
    (stage : Stage) (b : Band ℝ) (out : Array ℝ) :
    (pb.withPoints (before ++ p :: after)).objectiveSlopes stage b out (.zero pb.layout) =
      (pb.withPoints (before ++ after)).objectiveSlopes stage b out (.zero pb.layout) := by
  have clean : (Gradient.zero pb.layout : Gradient ℝ).IsClean pb.layout b := zero_isClean _ b
  have total : (pb.withPoints (before ++ p :: after)).weightSum =
      (pb.withPoints (before ++ after)).weightSum := pb.weightSum_weightless weightless
  have added : (pb.withPoints (before ++ p :: after)).addGradient stage b =
      (pb.withPoints (before ++ after)).addGradient stage b := by
    funext sum q
    rw [addGradient, pointEffect, total]
    rfl
  have sums := (pb.withPoints (before ++ after)).foldl_addGradient_weightless weightless others
    stage b ⟨0, out.map fun _ => 0⟩
  rw [objectiveSlopes_clean (pb.withPoints (before ++ p :: after)) stage out clean,
    objectiveSlopes_clean (pb.withPoints (before ++ after)) stage out clean, added, total]
  dsimp only [withPoints] at sums ⊢
  rw [sums]
  rfl

theorem weightless_agrees (weightless : p.weight = 0) (others : before ++ after ≠ []) :
    Agrees (pb.withPoints (before ++ p :: after)) (pb.withPoints (before ++ after)) where
  layout := rfl
  tuning := rfl
  error := pb.error_weightless weightless
  stageProblem := by
    funext stage b
    simp only [stageProblem, objective, pb.error_weightless weightless]
    congr 1
    funext params
    exact congrArg Sloped.slopes (pb.objectiveSlopes_weightless weightless others stage _ _)

end Weightless

end BandProblem

/-! A sample of weight zero. -/

section Fit

variable {inks : InkSet} {opts : FitOptions ℝ} {before after : List (Sample ℝ)} {s : Sample ℝ}

/-- The model that a fit of samples starts with. -/
noncomputable def fitStart (inks : InkSet) (samples : List (Sample ℝ)) (opts : FitOptions ℝ) :
    Except (ModelError ℝ) (Parts ℝ) :=
  (fitInputs inks samples opts).map fun points => startParts inks points opts

theorem fitInputs_accepted_iff {samples : List (Sample ℝ)} {points : List (FitPoint ℝ)} :
    fitInputs inks samples opts = .ok points ↔ inks.count ≤ maxInks ∧ samples ≠ [] ∧
      ∃ k, (spectralCount opts.spectral : Except (ModelError ℝ) ℕ) = .ok k ∧
        (∀ s ∈ samples, s.Accepted inks.count k) ∧ points = samples.map (Sample.point k) := by
  simp only [fitInputs_eq_ok_iff, fitPoints_eq_ok_iff]
  constructor
  · rintro ⟨few, k, count, nonempty, accepted, same⟩
    exact ⟨few, nonempty, k, count, accepted, same⟩
  · rintro ⟨few, nonempty, k, count, accepted, same⟩
    exact ⟨few, k, count, nonempty, accepted, same⟩

/-- A fit takes its samples with an accepted one as it does without. -/
theorem fitInputs_beside (others : before ++ after ≠ [])
    (accepted : ∀ k, (spectralCount opts.spectral : Except (ModelError ℝ) ℕ) = .ok k →
      s.Accepted inks.count k) :
    (∃ k, (∀ s' ∈ before ++ s :: after, s'.Accepted inks.count k) ∧
      fitInputs inks (before ++ s :: after) opts =
        .ok ((before ++ s :: after).map (Sample.point k)) ∧
      fitInputs inks (before ++ after) opts = .ok ((before ++ after).map (Sample.point k))) ∨
    ∃ e e', fitInputs inks (before ++ s :: after) opts = .error e ∧
      fitInputs inks (before ++ after) opts = .error e' := by
  cases without : fitInputs inks (before ++ after) opts with
  | ok points =>
      obtain ⟨few, -, k, count, all, rfl⟩ := fitInputs_accepted_iff.mp without
      have each : ∀ s' ∈ before ++ s :: after, s'.Accepted inks.count k :=
        forall_mem_beside.mpr ⟨accepted k count, all⟩
      exact .inl ⟨k, each, fitInputs_accepted_iff.mpr ⟨few, by simp, k, count, each, rfl⟩, rfl⟩
  | error e' =>
      cases together : fitInputs inks (before ++ s :: after) opts with
      | error e => exact .inr ⟨e, e', rfl, rfl⟩
      | ok points =>
          obtain ⟨few, -, k, count, all, rfl⟩ := fitInputs_accepted_iff.mp together
          have fewer : ∀ s' ∈ before ++ after, s'.Accepted inks.count k :=
            (forall_mem_beside.mp all).2
          rw [fitInputs_accepted_iff.mpr ⟨few, others, k, count, fewer, rfl⟩] at without
          cases without

/-- From one start, fits with a point of weight zero and without it are the same. -/
theorem fitTurns_weightless (solver : Solver ℝ) {before after : List (FitPoint ℝ)} {p : FitPoint ℝ}
    (weightless : p.weight = 0) (others : before ++ after ≠ [])
    (same : startParts inks (before ++ p :: after) opts = startParts inks (before ++ after) opts)
    (bands : Array (Band ℝ)) (turns : List Turn) :
    fitTurns solver opts (fitProblem inks (before ++ p :: after) opts) bands turns =
      fitTurns solver opts (fitProblem inks (before ++ after) opts) bands turns := by
  refine BandProblem.fitTurns_agree solver (fun j => ?_) opts bands turns
  have agrees := (fitProblem inks (before ++ after) opts j).weightless_agrees weightless others
  have together : fitProblem inks (before ++ p :: after) opts j =
      (fitProblem inks (before ++ after) opts j).withPoints (before ++ p :: after) := by
    simp only [fitProblem, same, BandProblem.withPoints]
  rw [together]
  exact agrees

theorem fit_of_fitStart (solver : Solver ℝ) (weightless : s.weight = 0)
    (others : before ++ after ≠ [])
    (accepted : ∀ k, (spectralCount opts.spectral : Except (ModelError ℝ) ℕ) = .ok k →
      s.Accepted inks.count k)
    (starts : (fitStart inks (before ++ s :: after) opts).toOption =
      (fitStart inks (before ++ after) opts).toOption) :
    (fit solver inks (before ++ s :: after) opts).toOption =
      (fit solver inks (before ++ after) opts).toOption := by
  rw [fit_eq, fit_eq]
  obtain ⟨k, -, together, without⟩ | ⟨e, e', together, without⟩ := fitInputs_beside others accepted
  · rw [fitStart, fitStart, together, without] at starts
    have same : startParts inks ((before ++ s :: after).map (Sample.point k)) opts =
        startParts inks ((before ++ after).map (Sample.point k)) opts := Option.some.inj starts
    rw [together, without]
    simp only [List.map_append, List.map_cons, Except.bind] at same ⊢
    rw [fitTurns_weightless solver weightless (by simpa using others) same, same]
  · rw [together, without]
    rfl

theorem fitStart_passedOver (others : before ++ after ≠ [])
    (accepted : ∀ k, (spectralCount opts.spectral : Except (ModelError ℝ) ℕ) = .ok k →
      s.Accepted inks.count k)
    (passed : ∀ comb < 2 ^ inks.count, s.IsPassedOver before after opts.tuning inks.count comb) :
    (fitStart inks (before ++ s :: after) opts).toOption =
      (fitStart inks (before ++ after) opts).toOption := by
  obtain ⟨k, all, together, without⟩ | ⟨e, e', together, without⟩ :=
    fitInputs_beside others accepted
  · have bands : initialBands (fitLayout inks opts)
        ((before ++ s :: after).map (Sample.point k)) inks.additive opts.tuning =
        initialBands (fitLayout inks opts) ((before ++ after).map (Sample.point k)) inks.additive
          opts.tuning := initialBands_passedOver all others passed
    rw [fitStart, fitStart, together, without]
    simp only [Except.map, Except.toOption, startParts, bands]
  · rw [fitStart, fitStart, together, without]
    rfl

/-- A sample of weight zero has no influence on a fit but through its start, and none on this either
when it is passed over at every combination. -/
theorem fit_weightless (solver : Solver ℝ) (weightless : s.weight = 0)
    (total : 0 < ((before ++ s :: after).map Sample.weight).sum)
    (accepted : ∀ k, (spectralCount opts.spectral : Except (ModelError ℝ) ℕ) = .ok k →
      s.Accepted inks.count k) :
    ((fitStart inks (before ++ s :: after) opts).toOption =
        (fitStart inks (before ++ after) opts).toOption →
      (fit solver inks (before ++ s :: after) opts).toOption =
        (fit solver inks (before ++ after) opts).toOption) ∧
    ((∀ comb < 2 ^ inks.count, s.IsPassedOver before after opts.tuning inks.count comb) →
      (fitStart inks (before ++ s :: after) opts).toOption =
        (fitStart inks (before ++ after) opts).toOption ∧
      (fit solver inks (before ++ s :: after) opts).toOption =
        (fit solver inks (before ++ after) opts).toOption) := by
  have others : before ++ after ≠ [] := by
    intro empty
    obtain ⟨rfl, rfl⟩ := List.append_eq_nil_iff.mp empty
    simp [weightless] at total
  refine ⟨fit_of_fitStart solver weightless others accepted, fun passed => ?_⟩
  have starts := fitStart_passedOver others accepted passed
  exact ⟨starts, fit_of_fitStart solver weightless others accepted starts⟩

end Fit

/-! A display that is measured three times. -/

noncomputable def measuredBlack : Sample ℝ := ⟨#[0], ⟨0, 0, 0⟩, none, 1⟩

noncomputable def measuredWhite : Sample ℝ := ⟨#[1], ⟨0.96, 1, 0.82⟩, none, 1⟩

/-- A measurement of white that should not count. -/
noncomputable def doubtfulWhite : Sample ℝ := ⟨#[1], ⟨0.5, 0.5, 0.4⟩, none, 0⟩

/-- A fit of a colorimetric model that only starts. -/
noncomputable def plainStart : FitOptions ℝ := { startOnly with spectral := none }

/-- The same fit with its iterations. -/
noncomputable def plainFit : FitOptions ℝ := { plainStart with tuning := Tuning.default }

theorem plain_accepted {x weight : ℝ} (color : Xyz ℝ) (nonneg : 0 ≤ weight) :
    (⟨#[x], color, none, weight⟩ : Sample ℝ).Accepted (greyLamp : Parts ℝ).inks.count 0 where
  device := by
    have one : (greyLamp : Parts ℝ).inks.count = 1 := by decide
    rw [one]
    rfl
  finiteDevice := fun _ _ => rfl
  finiteColor := fun _ _ => rfl
  weight := by rwa [Scalar.real_zero]
  spectrum := nofun

theorem plain_count : (spectralCount none : Except (ModelError ℝ) ℕ) = .ok 0 := rfl

theorem fit_weightless_doubtfulWhite :
    (fitStart (greyLamp : Parts ℝ).inks ([measuredBlack, measuredWhite] ++ doubtfulWhite :: [])
        plainFit).toOption =
      (fitStart (greyLamp : Parts ℝ).inks ([measuredBlack, measuredWhite] ++ [])
        plainFit).toOption ∧
    (fit slopeSolver (greyLamp : Parts ℝ).inks
        ([measuredBlack, measuredWhite] ++ doubtfulWhite :: []) plainFit).toOption =
      (fit slopeSolver (greyLamp : Parts ℝ).inks ([measuredBlack, measuredWhite] ++ [])
        plainFit).toOption := by
  have total :
      0 < (([measuredBlack, measuredWhite] ++ doubtfulWhite :: []).map Sample.weight).sum := by
    norm_num [measuredBlack, measuredWhite, doubtfulWhite]
  refine (fit_weightless slopeSolver rfl total ?_).2 ?_
  · intro k count
    obtain rfl := Except.ok.inj (plain_count.symm.trans count)
    exact plain_accepted _ le_rfl
  · -- The second measurement comes first at white, and is as near everywhere else.
    intro comb _
    exact .earlier measuredWhite (by simp) le_rfl

theorem plainStart_fit {samples : List (Sample ℝ)} (nonempty : samples ≠ [])
    (accepted : ∀ s ∈ samples, s.Accepted (greyLamp : Parts ℝ).inks.count 0) :
    fit stillSolver (greyLamp : Parts ℝ).inks samples plainStart =
      .ok (startParts (greyLamp : Parts ℝ).inks (samples.map (Sample.point 0)) plainStart) :=
  fit_still (fitPoints_eq_ok_iff.mpr ⟨nonempty, accepted, rfl⟩) stillSolver greyLamp_valid.inks
    plain_count nofun rfl

theorem plain_sitsAt_iff {s : Sample ℝ} {x : ℝ} (dev : s.dev = #[x])
    (unit : x ∈ Set.Icc (0 : ℝ) 1) :
    s.SitsAt (fitLayout (greyLamp : Parts ℝ).inks plainStart) 1 ↔ x = 1 := by
  have one : (greyLamp : Parts ℝ).inks.count = 1 := by decide
  rw [Sample.SitsAt, dev]
  change (∀ m < (greyLamp : Parts ℝ).inks.count, _) ↔ _
  rw [one]
  simp [cornerValue, saturate_of_mem unit]

/-- Full light starts at the first measurement of it. -/
theorem plainStart_white {before after : List (Sample ℝ)} {s : Sample ℝ}
    (accepted : ∀ s' ∈ before ++ s :: after, s'.Accepted (greyLamp : Parts ℝ).inks.count 0)
    (sits : s.SitsAt (fitLayout (greyLamp : Parts ℝ).inks plainStart) 1)
    (first : ∀ s' ∈ before, ¬s'.SitsAt (fitLayout (greyLamp : Parts ℝ).inks plainStart) 1) :
    ((startParts (greyLamp : Parts ℝ).inks ((before ++ s :: after).map (Sample.point 0))
      plainStart).bands[0]?.bind fun b => b.primaries[1]?) = some s.xyz.x := by
  have close : (0 : ℝ) < plainStart.tuning.nearSquared := by
    change (0 : ℝ) < OfScientific.ofScientific 2 true 2
    norm_num
  have prepared := forall₂_prepare accepted
  have size : (startParts (greyLamp : Parts ℝ).inks ((before ++ s :: after).map (Sample.point 0))
      plainStart).bands.size = xyzBands + 0 := initialBands_size (by simp) prepared
  obtain ⟨target, targets, primaries⟩ := initialBands_measured
    (l := fitLayout (greyLamp : Parts ℝ).inks plainStart) prepared (by decide) close sits first
    true
  cases targets
  have inside : 0 < (startParts (greyLamp : Parts ℝ).inks
      ((before ++ s :: after).map (Sample.point 0)) plainStart).bands.size :=
    size ▸ Nat.zero_lt_succ 2
  rw [Array.getElem?_eq_getElem inside]
  exact primaries 0 _ (Array.getElem?_eq_getElem inside)

/-- A primary starts at the first measurement at its corner, even if that has no weight. -/
theorem weightless_start :
    doubtfulWhite.weight = 0 ∧
    0 < (([] ++ doubtfulWhite :: [measuredBlack, measuredWhite]).map Sample.weight).sum ∧
    ∃ parts parts',
      fit stillSolver (greyLamp : Parts ℝ).inks
        ([] ++ doubtfulWhite :: [measuredBlack, measuredWhite]) plainStart = .ok parts ∧
      fit stillSolver (greyLamp : Parts ℝ).inks ([] ++ [measuredBlack, measuredWhite]) plainStart =
        .ok parts' ∧ parts ≠ parts' := by
  have doubtful : doubtfulWhite.Accepted (greyLamp : Parts ℝ).inks.count 0 :=
    plain_accepted _ le_rfl
  have black : measuredBlack.Accepted (greyLamp : Parts ℝ).inks.count 0 :=
    plain_accepted _ zero_le_one
  have white : measuredWhite.Accepted (greyLamp : Parts ℝ).inks.count 0 :=
    plain_accepted _ zero_le_one
  have three : ∀ s ∈ [] ++ doubtfulWhite :: [measuredBlack, measuredWhite],
      s.Accepted (greyLamp : Parts ℝ).inks.count 0 := by
    simp [doubtful, black, white]
  have two : ∀ s ∈ [measuredBlack] ++ measuredWhite :: [],
      s.Accepted (greyLamp : Parts ℝ).inks.count 0 := by
    simp [black, white]
  refine ⟨rfl, by norm_num [measuredBlack, measuredWhite, doubtfulWhite], _, _,
    plainStart_fit (by simp) three, plainStart_fit (by simp) two, fun same => ?_⟩
  have full (s : Sample ℝ) (dev : s.dev = #[1]) :
      s.SitsAt (fitLayout (greyLamp : Parts ℝ).inks plainStart) 1 :=
    (plain_sitsAt_iff dev ⟨zero_le_one, le_rfl⟩).mpr rfl
  have dark : ¬measuredBlack.SitsAt (fitLayout (greyLamp : Parts ℝ).inks plainStart) 1 := by
    rw [plain_sitsAt_iff rfl ⟨le_rfl, zero_le_one⟩]
    exact zero_ne_one
  have first := plainStart_white three (full _ rfl) nofun
  have second := plainStart_white two (full _ rfl) (by simpa using dark)
  rw [same] at first
  have color := Option.some.inj (first.symm.trans second)
  norm_num [doubtfulWhite, measuredWhite] at color

end InkModel
