import InkModel.Fit.Objective
import InkModel.Proofs.Color.Lightness
import InkModel.Proofs.Device.Gradient

/-! # Slopes of the objectives in exact arithmetic

An objective is a sum of squared deviations, one for each point, and of
penalties, one for each parameter. The slopes of the deviations come from the
gradients of the band value; every penalty depends on one parameter alone.
-/

namespace InkModel

open Finset

namespace BandProblem

variable (pb : BandProblem ℝ)

/-! The error over the points. -/

section Error

variable (b : Band ℝ)

/-- The error of one point. -/
noncomputable def pointError (p : FitPoint ℝ) : ℝ :=
  p.weight * pb.deviation p (evaluate pb.layout b p.dev) ^ 2

theorem error_eq : pb.error b = (pb.points.map (pb.pointError b)).sum / pb.weightSum := by
  have terms : (fun (acc : ℝ) (p : FitPoint ℝ) => acc + p.weight *
      Scalar.sq (pb.deviation p (evaluate pb.layout b p.dev))) =
      fun acc p => acc + pb.pointError b p := by
    funext acc p
    rw [Scalar.real_sq, pointError]
  rw [error, terms, ← Scalar.real_sum, Scalar.sum, List.foldl_map]

/-- How the error of one point follows the band value. -/
noncomputable def pointEffect (p : FitPoint ℝ) : ℝ :=
  2 * p.weight * pb.deviation p (evaluate pb.layout b p.dev) *
    lightnessDeriv (evaluate pb.layout b p.dev) / pb.weightSum

theorem hasDerivAt_pointError {band : ℝ → Band ℝ} {x slope : ℝ} (p : FitPoint ℝ)
    (start : band x = b)
    (h : HasDerivAt (fun x => evaluate pb.layout (band x) p.dev) slope x) :
    HasDerivAt (fun x => pb.pointError (band x) p / pb.weightSum)
      (pb.pointEffect b p * slope) x := by
  have light := (Lightness.hasDerivAt _).comp x h
  have deviation : HasDerivAt (fun x => pb.deviation p (evaluate pb.layout (band x) p.dev))
      (lightnessDeriv (evaluate pb.layout (band x) p.dev) * slope) x := light.sub_const _
  refine (((deviation.pow 2).const_mul p.weight).div_const pb.weightSum).congr_deriv ?_
  rw [pointEffect, start]
  push_cast
  ring

theorem hasDerivAt_error {band : ℝ → Band ℝ} {x : ℝ} (start : band x = b)
    {slope : FitPoint ℝ → ℝ}
    (h : ∀ p, HasDerivAt (fun x => evaluate pb.layout (band x) p.dev) (slope p) x) :
    HasDerivAt (fun x => pb.error (band x))
      (pb.points.map fun p => pb.pointEffect b p * slope p).sum x := by
  simp only [error_eq]
  have total (points : List (FitPoint ℝ)) :
      HasDerivAt (fun x => (points.map (pb.pointError (band x))).sum / pb.weightSum)
        (points.map fun p => pb.pointEffect b p * slope p).sum x := by
    induction points with
    | nil => simpa using hasDerivAt_const x (0 : ℝ)
    | cons p points ih =>
        simp only [List.map_cons, List.sum_cons, add_div]
        exact (pb.hasDerivAt_pointError b p start (h p)).add ih
  exact total pb.points

end Error

/-! The penalties. -/

section Penalty

variable (b : Band ℝ)

/-- Penalty on the transfer coefficient of index `i`. -/
noncomputable def transferTerm (i : ℕ) (c : ℝ) : ℝ :=
  pb.tuning.harmonicWeight (i % pb.layout.order) * c * c

/-- Penalty on a shape parameter of `count`. -/
noncomputable def shapeTerm (count : ℕ) (s : ℝ) : ℝ := pb.tuning.shapeWeight / count * s * s

/-- Penalty on a primary with the anchor `a`. -/
noncomputable def primaryTerm (a p : ℝ) : ℝ :=
  pb.tuning.primaryWeight * (lightness p - a) * (lightness p - a) +
    if p < 0 then pb.tuning.negativeWeight * p * p else 0

/-- Slope of the penalty on a primary. -/
noncomputable def primaryTermSlope (a p : ℝ) : ℝ :=
  2 * pb.tuning.primaryWeight * (lightness p - a) * lightnessDeriv p +
    if p < 0 then 2 * pb.tuning.negativeWeight * p else 0

theorem hasDerivAt_square (w x : ℝ) : HasDerivAt (fun x => w * x * x) (2 * w * x) x := by
  have linear : HasDerivAt (fun x => w * x) w x := by
    simpa using (hasDerivAt_id x).const_mul w
  refine (linear.mul (hasDerivAt_id x)).congr_deriv ?_
  simp only [id]
  ring

/-- The penalty on negative values begins with slope zero. -/
theorem hasDerivAt_negative (w x : ℝ) :
    HasDerivAt (fun x => if x < 0 then w * x * x else 0) (if x < 0 then 2 * w * x else 0) x := by
  rcases lt_trichotomy x 0 with neg | rfl | pos
  · rw [if_pos neg]
    refine (hasDerivAt_square w x).congr_of_eventuallyEq ?_
    filter_upwards [Iio_mem_nhds neg] with y hy
    exact if_pos hy
  · rw [if_neg (lt_irrefl 0)]
    refine Bias.hasDerivAt_join ((hasDerivAt_square w 0).congr_deriv (mul_zero _))
      (hasDerivAt_const 0 0) ?_ ?_
    · filter_upwards [self_mem_nhdsWithin] with y hy
      rcases (Set.mem_Iic.mp hy).lt_or_eq with neg | rfl
      · exact if_pos neg
      · simp
    · filter_upwards [self_mem_nhdsWithin] with y hy
      exact if_neg (Set.mem_Ici.mp hy).not_gt
  · rw [if_neg pos.not_gt]
    refine (hasDerivAt_const x 0).congr_of_eventuallyEq ?_
    filter_upwards [Ioi_mem_nhds pos] with y hy
    exact if_neg (not_lt.mpr (le_of_lt hy))

theorem hasDerivAt_primaryTerm (a p : ℝ) :
    HasDerivAt (pb.primaryTerm a) (pb.primaryTermSlope a p) p := by
  have deviation : HasDerivAt (fun p => lightness p - a) (lightnessDeriv p) p :=
    (Lightness.hasDerivAt p).sub_const a
  refine (((deviation.const_mul _).mul deviation).add
    (hasDerivAt_negative _ p)).congr_deriv ?_
  rw [primaryTermSlope]
  ring

theorem transferPenalty_value : (pb.transferPenalty b).value =
    ∑ i ∈ range b.transfer.size, pb.transferTerm i (b.transfer.getD i 0) := by
  rw [transferPenalty, Scalar.real_sumBelow, Scalar.real_zero]
  rfl

theorem shapePenalty_value : (pb.shapePenalty b).value =
    ∑ i ∈ range b.shape.size, pb.shapeTerm b.shape.size (b.shape.getD i 0) := by
  rw [shapePenalty]
  split
  · have : b.shape.size = 0 := by simpa [Array.isEmpty] using ‹b.shape.isEmpty = true›
    rw [this, Finset.range_zero, Finset.sum_empty]
    exact Scalar.real_zero
  · dsimp only
    rw [Scalar.real_zero]
    exact foldl_add_eq_sum b.shape (pb.shapeTerm b.shape.size) 0

theorem primaryPenalty_value (anchored : pb.anchors.size = b.primaries.size) :
    (pb.primaryPenalty b).value =
      ∑ i ∈ range b.primaries.size,
        pb.primaryTerm (pb.anchors.getD i 0) (b.primaries.getD i 0) := by
  have step : (fun (acc : ℝ) ((p, a) : ℝ × ℝ) =>
      let d := lightness p - a
      let acc := acc + pb.tuning.primaryWeight * d * d
      if p < 0 then acc + pb.tuning.negativeWeight * p * p else acc) =
      fun acc pair => acc + pb.primaryTerm pair.2 pair.1 := by
    funext acc pair
    dsimp only [primaryTerm]
    split <;> ring
  rw [primaryPenalty]
  dsimp only
  rw [Scalar.real_zero]
  refine (congrArg (fun f => Array.foldl f 0 _) step).trans ?_
  rw [foldl_add_eq_sum _ _ (0, 0), Array.size_zip, anchored, Nat.min_self]
  refine sum_congr rfl fun i hi => ?_
  have inside : i < b.primaries.size := mem_range.mp hi
  have anchor : i < pb.anchors.size := by omega
  simp [inside, anchor]

theorem primaryPenalty_slopes : (pb.primaryPenalty b).slopes =
    (Array.zip b.primaries pb.anchors).map fun (p, a) => pb.primaryTermSlope a p := by
  have step : (fun ((p, a) : ℝ × ℝ) =>
      let d := lightness p - a
      let slope := 2 * pb.tuning.primaryWeight * d * lightnessDeriv p
      if p < 0 then slope + 2 * pb.tuning.negativeWeight * p else slope) =
      fun (p, a) => pb.primaryTermSlope a p := by
    funext (p, a)
    dsimp only [primaryTermSlope]
    split <;> ring
  rw [primaryPenalty]
  dsimp only
  rw [Scalar.real_zero]
  exact congrArg (fun f => Array.map f _) step

/-- The terms that the penalty of a stage is made of. -/
noncomputable def penaltyTerm (stage : Stage) (count i : ℕ) : ℝ → ℝ :=
  match stage with
  | .transfer => pb.transferTerm i
  | .shape => pb.shapeTerm count
  | .primaries => pb.primaryTerm (pb.anchors.getD i 0)

/-- Slope of the penalty of a stage on a parameter. -/
noncomputable def penaltyTermSlope (stage : Stage) (count i : ℕ) (x : ℝ) : ℝ :=
  match stage with
  | .transfer => 2 * pb.tuning.harmonicWeight (i % pb.layout.order) * x
  | .shape => 2 * (pb.tuning.shapeWeight / count) * x
  | .primaries => pb.primaryTermSlope (pb.anchors.getD i 0) x

theorem hasDerivAt_penaltyTerm (stage : Stage) (count i : ℕ) (x : ℝ) :
    HasDerivAt (pb.penaltyTerm stage count i) (pb.penaltyTermSlope stage count i x) x := by
  cases stage with
  | transfer => exact hasDerivAt_square _ x
  | shape => exact hasDerivAt_square _ x
  | primaries => exact pb.hasDerivAt_primaryTerm _ x

variable {pb b}

theorem penalty_value (fits : b.Fits pb.layout)
    (anchored : pb.anchors.size = pb.layout.combinations) (stage : Stage) :
    (pb.penalty stage b).value = ∑ i ∈ range (stage.params b).size,
      pb.penaltyTerm stage (stage.params b).size i ((stage.params b).getD i 0) := by
  cases stage with
  | transfer => exact pb.transferPenalty_value b
  | shape => exact pb.shapePenalty_value b
  | primaries => exact pb.primaryPenalty_value b (anchored.trans fits.2.2.symm)

theorem penalty_slopes (fits : b.Fits pb.layout)
    (anchored : pb.anchors.size = pb.layout.combinations) (stage : Stage) :
    (pb.penalty stage b).slopes = (stage.params b).mapIdx
      (pb.penaltyTermSlope stage (stage.params b).size) := by
  cases stage with
  | transfer => rfl
  | shape =>
      change (pb.shapePenalty b).slopes = b.shape.mapIdx _
      rw [shapePenalty]
      split
      · have : b.shape = #[] := by simpa [Array.isEmpty] using ‹b.shape.isEmpty = true›
        rw [this]
        rfl
      · apply Array.ext (by simp)
        intro i h₁ h₂
        simp only [Array.getElem_map, Array.getElem_mapIdx]
        rfl
  | primaries =>
      have size : pb.anchors.size = b.primaries.size := anchored.trans fits.2.2.symm
      change (pb.primaryPenalty b).slopes = b.primaries.mapIdx _
      rw [primaryPenalty_slopes]
      apply Array.ext (by simp [size])
      intro i h₁ h₂
      have inside : i < b.primaries.size := by simpa using h₂
      have anchor : i < pb.anchors.size := by omega
      simp [penaltyTermSlope, anchor]

theorem stage_params_replace (stage : Stage) (b : Band ℝ) (params : Array ℝ) :
    stage.params (stage.replace b params) = params := by
  cases stage <;> rfl

theorem stage_params_replace_other {group stage : Stage} (other : group ≠ stage) (b : Band ℝ)
    (params : Array ℝ) : group.params (stage.replace b params) = group.params b := by
  cases stage <;> cases group <;> first | rfl | exact absurd rfl other

theorem stage_replace_fits {l : Layout} (stage : Stage) (fits : b.Fits l) {params : Array ℝ}
    (size : params.size = (stage.params b).size) : (stage.replace b params).Fits l := by
  obtain ⟨transfer, shape, primaries⟩ := fits
  cases stage with
  | transfer => exact ⟨size.trans transfer, shape, primaries⟩
  | shape => exact ⟨transfer, size.trans shape, primaries⟩
  | primaries => exact ⟨transfer, shape, size.trans primaries⟩

theorem stage_replace_self (stage : Stage) (b : Band ℝ) {i : ℕ} (hi : i < (stage.params b).size) :
    stage.replace b ((stage.params b).setIfInBounds i (stage.params b)[i]) = b := by
  rw [setIfInBounds_getElem_self hi]
  cases stage <;> rfl

theorem hasDerivAt_penalty (fits : b.Fits pb.layout)
    (anchored : pb.anchors.size = pb.layout.combinations) (stage : Stage) {i : ℕ}
    (hi : i < (stage.params b).size) :
    HasDerivAt (fun x => (pb.penalty stage
        (stage.replace b ((stage.params b).setIfInBounds i x))).value)
      (pb.penaltyTermSlope stage (stage.params b).size i (stage.params b)[i])
      (stage.params b)[i] := by
  have moves (x : ℝ) :
      (stage.replace b ((stage.params b).setIfInBounds i x)).Fits pb.layout :=
    stage_replace_fits stage fits Array.size_setIfInBounds
  have moved (x : ℝ) := penalty_value (moves x) anchored stage
  simp only [stage_params_replace, Array.size_setIfInBounds] at moved
  simp only [moved]
  exact hasDerivAt_sum_entry _ hi (pb.hasDerivAt_penaltyTerm stage _ i _)

end Penalty

/-! The accumulated slopes. -/

section Run

variable {pb} {b : Band ℝ}

/-- The slopes of the band value in the parameters of a stage. -/
noncomputable def stageSlope (pb : BandProblem ℝ) (stage : Stage) (b : Band ℝ) (i : ℕ)
    (p : FitPoint ℝ) : ℝ :=
  (stage.slopes (slopeTables pb.layout b p.dev)).getD i 0

theorem stage_slopes_size {l : Layout} {g : Gradient ℝ} (stage : Stage) (fits : b.Fits l)
    (sizes : g.Fits l) : (stage.slopes g).size = (stage.params b).size := by
  cases stage with
  | transfer => exact sizes.2.1.trans fits.1.symm
  | shape => exact sizes.2.2.1.trans fits.2.1.symm
  | primaries => exact sizes.2.2.2.trans fits.2.2.symm

/-- A point adds its error and its slopes, and leaves tables that fit. -/
theorem addPoint_eq (fits : b.Fits pb.layout) (stage : Stage) (sum : Sloped ℝ)
    (size : sum.slopes.size = (stage.params b).size) {old : Gradient ℝ}
    (sizes : old.Fits pb.layout) (p : FitPoint ℝ) :
    pb.addPoint stage b pb.weightSum (sum, old) p =
      (⟨sum.value + pb.pointError b p, sum.slopes.mapIdx fun i s =>
        s + pb.pointEffect b p * pb.stageSlope stage b i p⟩, slopeTables pb.layout b p.dev) := by
  have slopesSize : (stage.slopes (slopeTables pb.layout b p.dev)).size = (stage.params b).size :=
    stage_slopes_size stage fits (slopeTables_isGradient fits).fits
  have value : (slopeTables pb.layout b p.dev).value = evaluate pb.layout b p.dev := rfl
  rw [addPoint, gradientOver_eq fits p.dev sizes, value]
  congr 2
  · rw [pointError]
    ring
  · apply Array.ext (by simp [size, slopesSize])
    intro i h₁ h₂
    have inside : i < (stage.slopes (slopeTables pb.layout b p.dev)).size := by
      rw [slopesSize, ← size]
      simpa using h₂
    rw [Array.getElem_zipWith, Array.getElem_mapIdx, stageSlope, Array.getD_eq_getD_getElem?,
      Array.getElem?_eq_getElem inside, Option.getD_some]
    rfl

/-- All points together, from sums so far. -/
theorem foldl_addPoint (fits : b.Fits pb.layout) (stage : Stage) (points : List (FitPoint ℝ))
    (sum : Sloped ℝ) (size : sum.slopes.size = (stage.params b).size) {old : Gradient ℝ}
    (sizes : old.Fits pb.layout) :
    (points.foldl (pb.addPoint stage b pb.weightSum) (sum, old)).1 =
      ⟨sum.value + (points.map (pb.pointError b)).sum, sum.slopes.mapIdx fun i s =>
        s + (points.map fun p => pb.pointEffect b p * pb.stageSlope stage b i p).sum⟩ := by
  induction points generalizing sum old with
  | nil =>
      have same : sum.slopes.mapIdx (fun _ s => s) = sum.slopes := by
        apply Array.ext <;> simp
      simp [same]
  | cons p points ih =>
      rw [List.foldl_cons, addPoint_eq fits stage sum size sizes,
        ih _ (by simpa using size) (slopeTables_isGradient fits).fits]
      simp only [List.map_cons, List.sum_cons, Array.mapIdx_mapIdx, Function.comp_def, add_assoc]

theorem objectiveSlopes_eq (fits : b.Fits pb.layout)
    (anchored : pb.anchors.size = pb.layout.combinations) (stage : Stage) {out : Array ℝ}
    (room : out.size = (stage.params b).size) {scratch : Gradient ℝ}
    (sizes : scratch.Fits pb.layout) :
    pb.objectiveSlopes stage b out scratch =
      ⟨pb.objective stage b, (stage.params b).mapIdx fun i x =>
        (pb.points.map fun p => pb.pointEffect b p * pb.stageSlope stage b i p).sum +
          pb.penaltyTermSlope stage (stage.params b).size i x⟩ := by
  have run := foldl_addPoint fits stage pb.points ⟨0, out.map fun _ => 0⟩ (by simpa using room)
    sizes
  rw [objectiveSlopes]
  dsimp only
  rw [Scalar.real_zero, run, penalty_slopes fits anchored]
  congr 1
  · rw [objective, error_eq, zero_add]
  · apply Array.ext (by simp [room])
    intro i h₁ h₂
    simp

theorem hasDerivAt_stage (fits : b.Fits pb.layout) (stage : Stage) {i : ℕ}
    (hi : i < (stage.params b).size) (p : FitPoint ℝ) :
    HasDerivAt (fun x => evaluate pb.layout
        (stage.replace b ((stage.params b).setIfInBounds i x)) p.dev)
      (pb.stageSlope stage b i p) (stage.params b)[i] := by
  cases stage with
  | transfer => exact slopeTables_transfer fits hi
  | shape => exact slopeTables_shape fits hi
  | primaries => exact slopeTables_primaries fits hi

/-- The objective and its slopes agree: the value is the objective, and the
slope of every parameter is its partial derivative, whatever the tables held. -/
theorem objectiveSlopes_spec (fits : b.Fits pb.layout)
    (anchored : pb.anchors.size = pb.layout.combinations) (stage : Stage) {out : Array ℝ}
    (room : out.size = (stage.params b).size) {scratch : Gradient ℝ}
    (sizes : scratch.Fits pb.layout) :
    (pb.objectiveSlopes stage b out scratch).value = pb.objective stage b ∧
      (pb.objectiveSlopes stage b out scratch).slopes.size = (stage.params b).size ∧
      ∀ i (_ : i < (stage.params b).size), HasDerivAt
        (fun x => pb.objective stage
          (stage.replace b ((stage.params b).setIfInBounds i x)))
        ((pb.objectiveSlopes stage b out scratch).slopes.getD i 0) (stage.params b)[i] := by
  rw [objectiveSlopes_eq fits anchored stage room sizes]
  refine ⟨rfl, Array.size_mapIdx, fun i hi => ?_⟩
  have error := pb.hasDerivAt_error b (stage_replace_self stage b hi)
    fun p => hasDerivAt_stage fits stage hi p
  have penalty := hasDerivAt_penalty fits anchored stage hi
  refine (error.add penalty).congr_deriv ?_
  simp [hi]

/-- The fit of a band of two channels to one point. -/
def onePointFit {α : Type} [Scalar α] : BandProblem α where
  layout := ⟨2, 2, true⟩
  points := [⟨#[1 / 2, 1 / 4], #[1], #[100], 1⟩]
  band := 0
  tuning := Tuning.default
  anchors := #[0, 8, 100, 0]

theorem objectiveSlopes_spec_onePointFit :
    (onePointFit.objectiveSlopes .primaries twoChannelBand #[1, 2, 3, 4] usedTables).value =
        onePointFit.objective .primaries twoChannelBand ∧
      (onePointFit.objectiveSlopes .primaries twoChannelBand #[1, 2, 3, 4]
        usedTables).slopes.size = 4 ∧
      ∀ i (_ : i < (Stage.primaries.params twoChannelBand).size), HasDerivAt
        (fun x => onePointFit.objective .primaries (Stage.primaries.replace twoChannelBand
          ((Stage.primaries.params twoChannelBand).setIfInBounds i x)))
        ((onePointFit.objectiveSlopes .primaries twoChannelBand #[1, 2, 3, 4]
          usedTables).slopes.getD i 0) (Stage.primaries.params twoChannelBand)[i] :=
  objectiveSlopes_spec ⟨rfl, rfl, rfl⟩ rfl .primaries (by rfl) ⟨rfl, rfl, rfl, rfl⟩

end Run

end BandProblem

end InkModel
