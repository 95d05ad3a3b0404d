import InkModel.Proofs.Device.Reference
import InkModel.Proofs.Profile.Legal

/-! # The threshold of the black point

The search for the black of a printer fails above a threshold. It is met by the end of the search,
and still after its values are brought into their range. Where the ink limit then scales them down,
the colour may change, and the black that a model keeps may miss the threshold.
-/

namespace InkModel

/-! By how much device values leave their range and the limit. -/

section Excess

variable {limit : Option ℝ} {dev : Array ℝ}

theorem saturate_saturate (dev : Array ℝ) : (dev.map saturate).map saturate = dev.map saturate :=
  map_saturate_of_unit (map_saturate_unit dev)

/-- By how much a value leaves its range. -/
noncomputable def outside (d : ℝ) : ℝ := max (-d) 0 + max (d - 1) 0

theorem outside_of_mem {d : ℝ} (unit : d ∈ Set.Icc (0 : ℝ) 1) : outside d = 0 := by
  rw [outside, max_eq_right (by linarith [unit.1]), max_eq_right (by linarith [unit.2]), add_zero]

theorem sum_outside_nonneg (dev : Array ℝ) : 0 ≤ (dev.toList.map outside).sum := by
  apply List.sum_nonneg
  intro x mem
  obtain ⟨d, -, rfl⟩ := List.mem_map.mp mem
  exact add_nonneg (le_max_right _ _) (le_max_right _ _)

theorem sum_outside_of_unit (unit : ∀ d ∈ dev, d ∈ Set.Icc (0 : ℝ) 1) :
    (dev.toList.map outside).sum = 0 := by
  apply List.sum_eq_zero
  intro x mem
  obtain ⟨d, own, rfl⟩ := List.mem_map.mp mem
  exact outside_of_mem (unit d (Array.mem_toList_iff.mp own))

theorem excess_eq (limit : Option ℝ) (dev : Array ℝ) : excess limit dev =
    (dev.toList.map outside).sum +
      (limit.map fun l => max ((dev.map saturate).toList.sum - l) 0).getD 0 := by
  have total : dev.foldl (fun acc d => acc + (Scalar.max (-d) (@OfNat.ofNat ℝ 0 Scalar.instOfNat) +
      Scalar.max (d - @OfNat.ofNat ℝ 1 Scalar.instOfNat) (@OfNat.ofNat ℝ 0 Scalar.instOfNat)))
        (@OfNat.ofNat ℝ 0 Scalar.instOfNat) = (dev.toList.map outside).sum := by
    rw [Scalar.real_zero, Scalar.real_one, ← Scalar.real_sum, ← Array.foldl_toList, Scalar.sum,
      List.foldl_map, Scalar.real_zero]
    rfl
  unfold excess
  dsimp only
  rw [total]
  cases limit with
  | none => simp
  | some l =>
      rw [total_eq_sum]
      simp only [Scalar.real_zero]
      rfl

theorem excess_of_legal (unit : ∀ d ∈ dev, d ∈ Set.Icc (0 : ℝ) 1)
    (within : ∀ l, limit = some l → dev.toList.sum ≤ l) : excess limit dev = 0 := by
  rw [excess_eq, sum_outside_of_unit unit, map_saturate_of_unit unit, zero_add]
  cases limit with
  | none => rfl
  | some l => exact max_eq_right (sub_nonpos.mpr (within l rfl))

theorem excess_nonneg (limit : Option ℝ) (dev : Array ℝ) : 0 ≤ excess limit dev := by
  rw [excess_eq]
  apply add_nonneg (sum_outside_nonneg dev)
  cases limit with
  | none => exact le_rfl
  | some l => exact le_max_right _ _

/-- Values that are brought into their range leave only the limit. -/
theorem excess_saturate_le (limit : Option ℝ) (dev : Array ℝ) :
    excess limit (dev.map saturate) ≤ excess limit dev := by
  rw [excess_eq, excess_eq, sum_outside_of_unit (map_saturate_unit dev), saturate_saturate]
  exact add_le_add_left (sum_outside_nonneg dev) _

end Excess

section Objective

variable {r : Response ℝ} {t : Tuning ℝ} {dev : Array ℝ}

/-- What the objective asks of the colour alone: lightness and distance from the neutral line. -/
noncomputable def colorObjective (r : Response ℝ) (t : Tuning ℝ) (dev : Array ℝ) : ℝ :=
  printerObjective r { t with rangeWeight := 0 } dev

theorem printerObjective_eq (r : Response ℝ) (t : Tuning ℝ) (dev : Array ℝ) :
    printerObjective r t dev = colorObjective r t dev + t.rangeWeight * excess r.limit dev := by
  unfold colorObjective printerObjective blackObjective blackCost
  ring

theorem colorObjective_saturate (r : Response ℝ) (t : Tuning ℝ) (dev : Array ℝ) :
    colorObjective r t (dev.map saturate) = colorObjective r t dev := by
  unfold colorObjective printerObjective blackObjective blackCost
  rw [saturate_saturate]
  ring

theorem printerObjective_saturate_le (weight : 0 ≤ t.rangeWeight) :
    printerObjective r t (dev.map saturate) ≤ printerObjective r t dev := by
  rw [printerObjective_eq, printerObjective_eq, colorObjective_saturate]
  exact add_le_add_right (mul_le_mul_of_nonneg_left (excess_saturate_le _ _) weight) _

theorem colorObjective_le (weight : 0 ≤ t.rangeWeight) :
    colorObjective r t dev ≤ printerObjective r t dev := by
  rw [printerObjective_eq]
  exact le_add_of_nonneg_right (mul_nonneg weight (excess_nonneg _ _))

end Objective

section Accepted

variable {solver : Solver ℝ} {r : Response ℝ} {t : Tuning ℝ}

/-- A search that is accepted ends at a point that meets the threshold: the end of its first best
trial. -/
theorem printerNeutrals_accepted (truthful : IsTruthfulInterval solver.interval)
    {points : Neutrals ℝ} (found : printerNeutrals solver r t = .ok points) :
    ∃ mins best, Trials solver r t mins ∧ IsFirstLeast best mins ∧ best.point.size = r.channels ∧
      printerObjective r t best.point ≤ t.blackFail ∧ points = printerPoints r best := by
  obtain ⟨mins, best, trials, least, rfl⟩ := printerNeutrals_eq_ok found
  have mem := (bestFrom_isFirstLeast least).mem
  have value : ∀ m ∈ mins, m.value = printerObjective r t m.point :=
    trials.forall fun _ _ _ => blackTrial_value truthful
  refine ⟨mins, best, trials, bestFrom_isFirstLeast least, trials.size best mem, ?_, rfl⟩
  obtain ⟨best', least', result⟩ := printerNeutrals_of_trials trials
  cases least.symm.trans least'
  rw [← value best mem]
  by_contra fails
  rw [result, if_pos (not_le.mp fails)] at found
  cases found

end Accepted

/-- The end of an accepted search, which is that of the first of its best trials, meets the
threshold, and so it does when its values are brought into their range. The black of the model is
that point, scaled to the ink limit: it exceeds the threshold by no more than the scaling changes
the colour, and not at all where it stays below the limit. -/
theorem accepted_black_threshold (solver : Solver ℝ) (truthful : IsTruthfulInterval solver.interval)
    (parts : Parts ℝ) (tuning : Tuning ℝ) (built m : Model ℝ)
    (build : Model.build solver parts tuning = .ok built) (reached : Model.Reached solver built m)
    (printer : parts.inks.additive = false) (weight : 0 ≤ tuning.rangeWeight) :
    ∃ mins best, Trials solver m.toResponse tuning mins ∧ IsFirstLeast best mins ∧
      best.point.size = m.channels ∧
      m.neutrals.black.dev = clipToLimit (best.point.map saturate) m.limit ∧
      printerObjective m.toResponse tuning best.point ≤ tuning.blackFail ∧
      printerObjective m.toResponse tuning (best.point.map saturate) ≤ tuning.blackFail ∧
      printerObjective m.toResponse tuning m.neutrals.black.dev ≤ tuning.blackFail +
        (colorObjective m.toResponse tuning m.neutrals.black.dev -
          colorObjective m.toResponse tuning (best.point.map saturate)) ∧
      ((∀ l, m.limit = some l → m.neutrals.black.dev.toList.sum < l) →
        printerObjective m.toResponse tuning m.neutrals.black.dev ≤ tuning.blackFail) := by
  have found := reached.findNeutrals_eq build
  have same : m.parts = parts := (reached.parts_eq build).1
  have settings : m.tuning = tuning := reached.keeps.2.trans (Model.of_build build).2.2.1
  rw [findNeutrals, same, printer, if_neg Bool.false_ne_true, settings] at found
  obtain ⟨mins, best, trials, least, size, accepted, points⟩ :=
    printerNeutrals_accepted truthful found
  have black : m.neutrals.black.dev = clipToLimit (best.point.map saturate) m.limit :=
    congrArg (fun points => points.black.dev) points
  have saturated := (printerObjective_saturate_le weight).trans accepted
  refine ⟨mins, best, trials, least, size, black, accepted, saturated, ?_, fun below => ?_⟩
  · have legal := reached.legal build
    have inside : printerObjective m.toResponse tuning m.neutrals.black.dev =
        colorObjective m.toResponse tuning m.neutrals.black.dev := by
      rw [printerObjective_eq, excess_of_legal legal.black.unit legal.black_limit, mul_zero,
        add_zero]
    have color := (colorObjective_le weight).trans saturated
    rw [inside]
    linarith
  · rw [black] at below ⊢
    rwa [clipToLimit_of_sum_lt (reached.limit_pos build) below]

/-! A printer whose ink limit keeps it from its darkest colour. -/

/-- A band that falls from `white` on paper to 0 at full ink. -/
def inkBand (white : ℝ) : Band ℝ := ⟨#[0], #[], #[white, 0]⟩

/-- A printer with black ink alone, of which it never prints more than 90 %. -/
noncomputable def inkSheet : Parts ℝ where
  inks := ⟨8, false, by decide, by decide⟩
  limit := some 0.9
  order := 1
  shaped := false
  spectral := none
  instrument := none
  created := none
  bands := #[inkBand whiteD50.x, inkBand whiteD50.y, inkBand whiteD50.z]

/-- The usual settings, but for a black that has to be darker than 30. -/
noncomputable def darkBlack : Tuning ℝ := { Tuning.default with blackFail := 30 }

/-- Searches that stay where they start, and start at 90 % of each ink. -/
noncomputable def limitSolver : Solver ℝ :=
  { stillSolver with uniform := fun _ count => Array.replicate count 0.9 }

theorem inkBand_fits (white : ℝ) : (inkBand white).Fits ⟨1, 1, false⟩ := ⟨rfl, rfl, rfl⟩

theorem inkSheet_valid : inkSheet.Valid where
  inks := by decide
  order := by decide
  spectral := by decide
  bandCount := rfl
  bands := by
    intro b mem
    simp only [inkSheet, List.mem_toArray, List.mem_cons, List.not_mem_nil, or_false] at mem
    rcases mem with rfl | rfl | rfl <;> exact inkBand_fits _
  limit := by
    intro l h
    cases h
    rw [Scalar.real_zero]
    norm_num

theorem evaluate_inkBand (white x : ℝ) :
    evaluate ⟨1, 1, false⟩ (inkBand white) #[x] = white * (1 - saturate x) := by
  have straight : ∀ c ∈ (inkBand white).transfer, c = 0 := by simp [inkBand]
  have warp : referenceWarp ⟨1, 1, false⟩ (inkBand white) #[x] = channelValue #[x] :=
    funext fun m => curveValue_zero _ straight #[x] m
  rw [evaluate_eq_referenceValue (inkBand_fits white), referenceValue, warp]
  simp [channelValue, interpolate, combinationWeight, Finset.sum_range_succ, inkBand]

theorem inkSheet_lookup (x : ℝ) : (Response.mk inkSheet none).lookup #[x] =
    ⟨whiteD50.x * (1 - saturate x), whiteD50.y * (1 - saturate x),
      whiteD50.z * (1 - saturate x)⟩ := by
  simp only [Response.lookup, Response.bandValue]
  rw [← evaluate_inkBand, ← evaluate_inkBand, ← evaluate_inkBand]
  rfl

theorem inkSheet_lookupLab (x : ℝ) : (Response.mk inkSheet none).lookupLab #[x] =
    ⟨116 * labCurve (1 - saturate x) - 16, 0, 0⟩ := by
  have white : (whiteD50 : Xyz ℝ).x ≠ 0 ∧ (whiteD50 : Xyz ℝ).y ≠ 0 ∧ (whiteD50 : Xyz ℝ).z ≠ 0 := by
    change (0.9642 : ℝ) ≠ 0 ∧ (1.0 : ℝ) ≠ 0 ∧ (0.8249 : ℝ) ≠ 0
    norm_num
  rw [Response.lookupLab, inkSheet_lookup, Xyz.toLab]
  simp only [mul_div_cancel_left₀ _ white.1, mul_div_cancel_left₀ _ white.2.1,
    mul_div_cancel_left₀ _ white.2.2, sub_self, mul_zero]

theorem inkSheet_target : ∃ l, neutralTarget (Response.mk inkSheet none) = ⟨l, 0, 0⟩ := by
  have own : inkSheet.inks.channelOf? .black = some 0 := by decide
  rw [neutralTarget, inkBlackDev_eq]
  dsimp only
  rw [own]
  exact ⟨_, inkSheet_lookupLab _⟩

theorem inkSheet_limit : (Response.mk inkSheet none).limit = some 0.9 := by
  have below : (0.9 : ℝ) < Scalar.ofNat 1 := by
    change (0.9 : ℝ) < ((1 : ℕ) : ℝ)
    norm_num
  change (some (0.9 : ℝ)).filter (fun l => decide (l < Scalar.ofNat 1)) = some 0.9
  rw [Option.filter_some, if_pos (decide_eq_true below)]

/-- All greys of the sheet are neutral. -/
theorem inkSheet_objective (t : Tuning ℝ) (x : ℝ) :
    printerObjective ⟨inkSheet, none⟩ t #[x] =
      116 * labCurve (1 - saturate x) - 16 + t.rangeWeight * excess (some 0.9) #[x] := by
  obtain ⟨l, target⟩ := inkSheet_target
  have paper : (Response.mk inkSheet none).lookupLab (Array.replicate 1 0) = _ :=
    inkSheet_lookupLab 0
  have color : (Response.mk inkSheet none).lookupLab (#[x].map saturate) =
      ⟨116 * labCurve (1 - saturate x) - 16, 0, 0⟩ := by
    simp [inkSheet_lookupLab, saturate_of_mem (saturate_mem x)]
  have one : (Response.mk inkSheet none).channels = 1 := by decide
  rw [printerObjective, blackObjective, blackCost, target, one, paper, color, inkSheet_limit]
  simp

/-- Up to 90 % of its ink the sheet is lighter than 30. -/
theorem inkSheet_lightness {x : ℝ} (x_le : x ≤ 0.9) : 30 < 116 * labCurve (1 - x) - 16 := by
  have root : (216 / 24389 : ℝ) < 1 - x := by
    norm_num at x_le ⊢
    linarith
  have odd : Odd 3 := by decide
  have above : 0.4 < realCbrt (1 - x) := by
    rw [← odd.strictMono_pow.lt_iff_lt, realCbrt_pow_three]
    norm_num at x_le ⊢
    linarith
  rw [LabCurve.of_root root]
  linarith

/-- Every search on the sheet starts at its limit. -/
theorem inkSheet_starts (t : Tuning ℝ) : ∀ start ∈ blackStarts limitSolver t 1, start = #[0.9] := by
  intro start mem
  obtain ⟨i, hi, rfl⟩ := List.mem_map.mp mem
  have size : (limitSolver.uniform t.blackSeed (max t.blackRestarts 1 * 1)).size =
      max t.blackRestarts 1 * 1 := Array.size_replicate
  have one := blackStarts_size size _ mem
  refine Array.ext one fun j _ hj => ?_
  obtain rfl : j = 0 := by simpa using hj
  simp [limitSolver]

theorem limitSolver_honest : IsHonest limitSolver.interval := stillSolver_honest

theorem blackRadius_usable : usableRadius (blackRadius : ℝ) = 0.1 := by
  have radius : (blackRadius : ℝ) = 0.1 := rfl
  rw [usableRadius, Scalar.real_zero, radius, if_pos (by norm_num)]

/-- Full ink has no lightness, and is beyond the limit by 10 %. -/
theorem inkSheet_full (t : Tuning ℝ) :
    printerObjective ⟨inkSheet, none⟩ t #[1] = t.rangeWeight * 0.1 := by
  have unit : (1 : ℝ) ∈ Set.Icc (0 : ℝ) 1 := ⟨zero_le_one, le_rfl⟩
  have dark : labCurve (0 : ℝ) = 16 / 116 := by
    rw [LabCurve.of_toe (by norm_num), mul_zero, zero_add]
  have beyond : excess (some 0.9) (#[1] : Array ℝ) = 0.1 := by
    rw [excess_eq]
    simp only [List.map_cons, List.map_nil, List.sum_cons, List.sum_nil, outside_of_mem unit,
      List.map_toArray, saturate_of_mem unit, Option.map_some, Option.getD_some]
    norm_num
  rw [inkSheet_objective, saturate_of_mem unit, sub_self, dark, beyond]
  ring

/-- From the limit the first step of a search leads to full ink. -/
theorem inkSheet_trial {t : Tuning ℝ} {m : Minimum ℝ}
    (ran : blackTrial limitSolver ⟨inkSheet, none⟩ t #[0.9] = .ok m) :
    m.value ≤ t.rangeWeight * 0.1 := by
  have start : clipToLimit (#[0.9] : Array ℝ) (Response.mk inkSheet none).limit = #[0.9] := by
    rw [inkSheet_limit]
    exact clipToLimit_of_le (by simp)
  have one : (Response.mk inkSheet none).channels = 1 := by decide
  have first : #[0.1] ∈ (axisDirections (Array.replicate 1 (blackRadius : ℝ))).toList.head? := by
    simp [axisDirections, blackRadius_usable]
  rw [blackTrial_eq, start, one] at ran
  have size : (#[0.9] : Array ℝ).size = (Array.replicate 1 (blackRadius : ℝ)).size := rfl
  have sweeps : blackSweeps ≠ 0 := by decide
  have step := powell_first limitSolver_honest one_ne_zero size sweeps ran first
  have full : alongLine (#[0.9] : Array ℝ) #[0.1] 1 = #[1] := by
    simp [alongLine]
    norm_num
  rwa [full, inkSheet_full] at step

theorem darkBlack_weight : darkBlack.rangeWeight = 200 := Scalar.real_ofNat 200

theorem inkSheet_build : ∃ m, Model.build limitSolver inkSheet darkBlack = .ok m := by
  have one : (Response.mk inkSheet none).channels = 1 := by decide
  obtain ⟨mins, trials, -⟩ := exists_trials (r := ⟨inkSheet, none⟩) (t := darkBlack)
    limitSolver_honest (by decide) Array.size_replicate
  have values : ∀ m ∈ mins, m.value ≤ 30 := by
    refine trials.forall fun start mem m ran => ?_
    rw [one] at mem
    rw [inkSheet_starts darkBlack start mem] at ran
    have value := inkSheet_trial ran
    rw [darkBlack_weight] at value
    norm_num at value
    linarith
  obtain ⟨best, least, result⟩ := printerNeutrals_of_trials trials
  have accepted : ¬darkBlack.blackFail < best.value :=
    not_lt.mpr (values best (bestFrom_isFirstLeast least).mem)
  rw [if_neg accepted] at result
  exact ⟨_, Model.build_eq_ok inkSheet_valid result⟩

theorem accepted_black_threshold_inkSheet :
    ∃ m, Model.build limitSolver inkSheet darkBlack = .ok m ∧ ∃ mins best,
      Trials limitSolver m.toResponse darkBlack mins ∧ IsFirstLeast best mins ∧
      m.neutrals.black.dev = clipToLimit (best.point.map saturate) m.limit ∧
      printerObjective m.toResponse darkBlack best.point ≤ 30 ∧
      printerObjective m.toResponse darkBlack (best.point.map saturate) ≤ 30 := by
  obtain ⟨m, build⟩ := inkSheet_build
  have weight : 0 ≤ darkBlack.rangeWeight := by
    rw [darkBlack_weight]
    norm_num
  obtain ⟨mins, best, trials, least, -, black, accepted, saturated, -⟩ :=
    accepted_black_threshold limitSolver limitSolver_honest.truthful inkSheet darkBlack m m build
      .built rfl weight
  exact ⟨m, build, mins, best, trials, least, black, accepted, saturated⟩

/-- A search with the usual weights passes the limit and meets the threshold there. The black of the
model misses it, as all that the printer may print. -/
theorem accepted_black_misses_threshold :
    IsTruthfulInterval limitSolver.interval ∧ 0 ≤ darkBlack.neutralWeight ∧
      0 ≤ darkBlack.rangeWeight ∧ inkSheet.inks.additive = false ∧
      ∃ m, Model.build limitSolver inkSheet darkBlack = .ok m ∧
        darkBlack.blackFail < printerObjective m.toResponse darkBlack m.neutrals.black.dev := by
  have neutral : darkBlack.neutralWeight = 10 := Scalar.real_ofNat 10
  refine ⟨limitSolver_honest.truthful, by norm_num [neutral], by norm_num [darkBlack_weight], rfl,
    ?_⟩
  obtain ⟨m, build⟩ := inkSheet_build
  refine ⟨m, build, ?_⟩
  have legal := Model.Reached.legal build .built
  have response : m.toResponse = ⟨inkSheet, none⟩ := (Model.of_build build).2.1
  obtain ⟨x, single⟩ : ∃ x, m.neutrals.black.dev = #[x] := by
    refine Array.size_eq_one_iff.mp (legal.black.size.trans ?_)
    rw [response]
    decide
  have unit := legal.black.unit x (by simp [single])
  have within := legal.black_limit 0.9 (by rw [response, inkSheet_limit])
  have excess_zero := excess_of_legal legal.black.unit legal.black_limit
  rw [single] at within excess_zero ⊢
  rw [response, inkSheet_limit] at excess_zero
  rw [response, inkSheet_objective, excess_zero, saturate_of_mem unit, mul_zero, add_zero]
  exact inkSheet_lightness (by simpa using within)

end InkModel
