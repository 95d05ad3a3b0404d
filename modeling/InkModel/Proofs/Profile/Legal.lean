import InkModel.Proofs.Color.InkSet
import InkModel.Proofs.Color.Lab
import InkModel.Proofs.Device.Forward
import InkModel.Proofs.Profile.BlackPoint
import InkModel.Proofs.Profile.Limit
import InkModel.Proofs.Profile.Model

/-! # Legal white and black points

Whatever the searches answer, the points of a model lie in the device cube and
within the ink limit, and their colours are lookups.
-/

namespace InkModel

/-- A point of the device cube with the colour that a lookup gives for it. -/
structure IsLegalPoint (r : Response ℝ) (p : DevicePoint ℝ) : Prop where
  size : p.dev.size = r.channels
  unit : ∀ d ∈ p.dev, d ∈ Set.Icc (0 : ℝ) 1
  color : p.xyz = r.lookup p.dev

/-- Whether the values of all channels together stay within the ink limit. -/
def IsWithinLimit (r : Response ℝ) (dev : Array ℝ) : Prop :=
  ∀ l, r.limit = some l → dev.toList.sum ≤ l

/-- White and black points as a device can print or show them. -/
structure AreLegal (r : Response ℝ) (points : Neutrals ℝ) : Prop where
  white : IsLegalPoint r points.white
  black : IsLegalPoint r points.black
  inkBlack : IsLegalPoint r points.inkBlack
  white_eq : points.white.dev =
    Array.replicate r.channels (if r.parts.inks.additive then 1 else 0)
  displayBlack : r.parts.inks.additive = true →
    points.black.dev = Array.replicate r.channels 0
  black_limit : IsWithinLimit r points.black.dev
  inkBlack_limit : IsWithinLimit r points.inkBlack.dev
  /-- The black ink of a printer stands alone. -/
  blackInk : r.parts.inks.additive = false → ∀ k, r.parts.inks.channelOf? .black = some k →
    ∀ i < r.channels, i ≠ k → points.inkBlack.dev[i]? = some 0
  noBlackInk : r.parts.inks.has .black = false → points.inkBlack = points.black

section Legal

variable {r : Response ℝ} (pos : ∀ l, r.limit = some l → 0 < l)

theorem isLegalPoint_replicate (r : Response ℝ) {x : ℝ} (unit : x ∈ Set.Icc (0 : ℝ) 1) :
    IsLegalPoint r (r.point (Array.replicate r.channels x)) where
  size := Array.size_replicate
  unit := by
    intro d mem
    rw [Array.eq_of_mem_replicate mem]
    exact unit
  color := rfl

include pos

theorem isWithinLimit_replicate : IsWithinLimit r (Array.replicate r.channels 0) := by
  intro l limit
  simpa using (pos l limit).le

theorem displayNeutrals_legal (additive : r.parts.inks.additive = true) :
    AreLegal r (displayNeutrals r) := by
  have points : displayNeutrals r =
      ⟨r.point (Array.replicate r.channels 1), r.point (Array.replicate r.channels 0),
        r.point (Array.replicate r.channels 0)⟩ := by
    rw [displayNeutrals, Scalar.real_zero, Scalar.real_one]
  have off := isLegalPoint_replicate r (x := 0) ⟨le_rfl, zero_le_one⟩
  rw [points]
  exact {
    white := isLegalPoint_replicate r ⟨zero_le_one, le_rfl⟩
    black := off
    inkBlack := off
    white_eq := by rw [additive]; rfl
    displayBlack := fun _ => rfl
    black_limit := isWithinLimit_replicate pos
    inkBlack_limit := isWithinLimit_replicate pos
    blackInk := by
      intro printer
      rw [additive] at printer
      cases printer
    noBlackInk := fun _ => rfl }

/-- How much of its black ink a device prints. -/
noncomputable def inkBlackFull (r : Response ℝ) : ℝ := (r.limit.map (· ⊓ 1)).getD 1

omit pos in
theorem inkBlackDev_eq (r : Response ℝ) : inkBlackDev r =
    (r.parts.inks.channelOf? .black).map fun k =>
      (Array.replicate r.channels 0).setIfInBounds k (inkBlackFull r) := by
  rw [inkBlackDev, Scalar.real_zero, Scalar.real_one, inkBlackFull]
  cases r.limit with
  | none => rfl
  | some l => rfl

theorem inkBlackFull_mem : inkBlackFull r ∈ Set.Icc (0 : ℝ) 1 := by
  unfold inkBlackFull
  cases limit : r.limit with
  | none => exact ⟨zero_le_one, le_rfl⟩
  | some l => exact ⟨le_inf (pos l limit).le zero_le_one, inf_le_right⟩

theorem inkBlack_legal {k : ℕ} (hk : k < r.channels) :
    IsLegalPoint r (r.point ((Array.replicate r.channels 0).setIfInBounds k (inkBlackFull r))) ∧
      IsWithinLimit r ((Array.replicate r.channels 0).setIfInBounds k (inkBlackFull r)) := by
  refine ⟨⟨by simp [Response.point], fun d mem => ?_, rfl⟩, fun l limit => ?_⟩
  · rcases Array.mem_or_eq_of_mem_setIfInBounds mem with other | own
    · rw [Array.eq_of_mem_replicate other]
      exact ⟨le_rfl, zero_le_one⟩
    · rw [own]
      exact inkBlackFull_mem pos
  · have sum : ((Array.replicate r.channels (0 : ℝ)).setIfInBounds k (inkBlackFull r)).toList.sum =
        inkBlackFull r := by
      rw [Array.toList_setIfInBounds, List.sum_set]
      simp [hk]
    rw [sum, inkBlackFull, limit]
    exact inf_le_left

theorem printerPoints_legal (printer : r.parts.inks.additive = false) {best : Minimum ℝ}
    (size : best.point.size = r.channels) : AreLegal r (printerPoints r best) := by
  have black : IsLegalPoint r (r.point (clipToLimit (best.point.map saturate) r.limit)) := by
    refine ⟨?_, ?_, rfl⟩
    · rw [Response.point, clipToLimit_size, Array.size_map, size]
    · exact clipToLimit_mem_unit pos (map_saturate_unit best.point)
  have blackLimit : IsWithinLimit r (clipToLimit (best.point.map saturate) r.limit) := by
    intro l limit
    rw [limit]
    exact sum_clipToLimit_le (pos l limit)
  have ink : (r.parts.inks.channelOf? .black = none ∧
        (printerPoints r best).inkBlack = (printerPoints r best).black) ∨
      ∃ k, r.parts.inks.channelOf? .black = some k ∧ k < r.channels ∧
        (printerPoints r best).inkBlack =
          r.point ((Array.replicate r.channels 0).setIfInBounds k (inkBlackFull r)) := by
    unfold printerPoints
    rw [inkBlackDev_eq]
    cases channel : r.parts.inks.channelOf? .black with
    | none => exact .inl ⟨rfl, rfl⟩
    | some k => exact .inr ⟨k, rfl, (InkSet.channelOf?_eq_some channel).2, rfl⟩
  have white : (printerPoints r best).white = r.point (Array.replicate r.channels 0) := by
    rw [printerPoints, Scalar.real_zero]
  have common : IsLegalPoint r (printerPoints r best).white ∧ (printerPoints r best).white.dev =
      Array.replicate r.channels (if r.parts.inks.additive then 1 else 0) := by
    rw [white, printer]
    exact ⟨isLegalPoint_replicate r ⟨le_rfl, zero_le_one⟩, rfl⟩
  have display (additive : r.parts.inks.additive = true) :
      (printerPoints r best).black.dev = Array.replicate r.channels 0 := by
    rw [printer] at additive
    cases additive
  rcases ink with ⟨absent, same⟩ | ⟨k, present, hk, alone⟩
  · exact {
      white := common.1
      black := black
      inkBlack := same ▸ black
      white_eq := common.2
      displayBlack := display
      black_limit := blackLimit
      inkBlack_limit := same ▸ blackLimit
      blackInk := by
        intro _ k present
        rw [absent] at present
        cases present
      noBlackInk := fun _ => same }
  · obtain ⟨legal, within⟩ := inkBlack_legal pos hk
    exact {
      white := common.1
      black := black
      inkBlack := alone ▸ legal
      white_eq := common.2
      displayBlack := display
      black_limit := blackLimit
      inkBlack_limit := alone ▸ within
      blackInk := by
        intro _ k' present' i hi other
        rw [present] at present'
        cases present'
        rw [alone, Response.point, Array.getElem?_setIfInBounds_ne other.symm]
        simp [hi]
      noBlackInk := by
        intro lacks
        rw [(InkSet.channelOf?_eq_some present).1] at lacks
        cases lacks }

theorem findNeutrals_legal {solver : Solver ℝ} {t : Tuning ℝ} {points : Neutrals ℝ}
    (found : findNeutrals solver r t = .ok points) : AreLegal r points := by
  unfold findNeutrals at found
  cases additive : r.parts.inks.additive with
  | true =>
      rw [additive, if_pos rfl] at found
      cases found
      exact displayNeutrals_legal pos additive
  | false =>
      rw [additive, if_neg Bool.false_ne_true] at found
      obtain ⟨mins, best, trials, least, rfl⟩ := printerNeutrals_eq_ok found
      have mem := (bestFrom_isFirstLeast least).mem
      exact printerPoints_legal pos additive (trials.size best mem)

end Legal

section Reached

variable {solver : Solver ℝ} {parts : Parts ℝ} {tuning : Tuning ℝ} {built m : Model ℝ}
variable (build : Model.build solver parts tuning = .ok built)
variable (reached : Model.Reached solver built m)
include build reached

theorem Model.Reached.limit_pos : ∀ l, m.limit = some l → 0 < l := by
  intro l limit
  obtain ⟨same, valid⟩ := reached.parts_eq build
  have pos := valid.limit l (same ▸ effectiveLimit_eq_some limit)
  rwa [Scalar.real_zero] at pos

theorem Model.Reached.legal : AreLegal m.toResponse m.neutrals :=
  findNeutrals_legal (reached.limit_pos build) (reached.findNeutrals_eq build)

end Reached

/-- In every state of a model its points are legal for its present lookups. The search for
the black of a printer runs all its trials, fails when the least of their values is
too large, and takes the end of the first trial with that value otherwise. -/
theorem neutrals_legal_black_least (solver : Solver ℝ) :
    (∀ (parts : Parts ℝ) (tuning : Tuning ℝ) (built m : Model ℝ),
      Model.build solver parts tuning = .ok built → Model.Reached solver built m →
        m.parts = parts ∧ AreLegal m.toResponse m.neutrals) ∧
    ∀ (r : Response ℝ) (t : Tuning ℝ), findNeutrals solver r t ≠ .error (.blackPoint none) ∧
      ∀ mins : List (Minimum ℝ), r.parts.inks.additive = false → Trials solver r t mins →
        mins.length = max t.blackRestarts 1 ∧
        ∃ best, IsFirstLeast best mins ∧
          (t.blackFail < best.value →
            findNeutrals solver r t = .error (.blackPoint (some best.value))) ∧
          (best.value ≤ t.blackFail → ∃ points, findNeutrals solver r t = .ok points ∧
            points.black.dev = clipToLimit (best.point.map saturate) r.limit) := by
  constructor
  · intro parts tuning built m build reached
    exact ⟨(reached.parts_eq build).1, reached.legal build⟩
  · intro r t
    constructor
    · unfold findNeutrals
      split
      · simp
      · exact printerNeutrals_ne_none
    · intro mins printer trials
      have search : findNeutrals solver r t = printerNeutrals solver r t := by
        rw [findNeutrals, printer, if_neg Bool.false_ne_true]
      obtain ⟨best, found, result⟩ := printerNeutrals_of_trials trials
      refine ⟨trials.length, best, bestFrom_isFirstLeast found, fun fails => ?_, fun passes => ?_⟩
      · rw [search, result, if_pos fails]
      · exact ⟨printerPoints r best, by rw [search, result, if_neg (not_lt.mpr passes)], rfl⟩

/-- A printer of four inks that prints the same on all paper, black. -/
def blackSheet {α : Type} [Scalar α] : Parts α where
  inks := ⟨15, false, by decide, by decide⟩
  limit := some 3
  order := 1
  shaped := false
  spectral := none
  instrument := none
  created := none
  bands := Array.replicate xyzBands (Band.zero ⟨4, 1, false⟩)

theorem Band.zero_fits {α : Type} [Scalar α] (l : Layout) : (Band.zero l : Band α).Fits l :=
  ⟨Array.size_replicate, Array.size_replicate, Array.size_replicate⟩

theorem evaluate_zero (l : Layout) (dev : Array ℝ) : evaluate l (Band.zero l) dev = 0 := by
  rw [evaluate_eq, response, blend_eq_sum]
  refine Finset.sum_eq_zero fun i hi => ?_
  have inside : i < l.combinations := by simpa [Band.zero] using hi
  have off : (Band.zero l : Band ℝ).primaries.getD i 0 = 0 := by
    rw [Band.zero, Scalar.real_zero]
    simp [inside]
  rw [off, zero_mul]

theorem blackSheet_valid : (blackSheet : Parts ℝ).Valid where
  inks := by decide
  order := by decide
  spectral := by decide
  bandCount := rfl
  bands := by
    intro b mem
    rw [Array.eq_of_mem_replicate mem]
    exact Band.zero_fits _
  limit := by
    intro l h
    cases h
    rw [Scalar.real_zero, Scalar.real_ofNat]
    norm_num

theorem blackSheet_lookup (dev : Array ℝ) :
    (Response.mk (blackSheet : Parts ℝ) none).lookup dev = ⟨0, 0, 0⟩ := by
  have value {j : ℕ} (hj : j < xyzBands) :
      (Response.mk (blackSheet : Parts ℝ) none).bandValue j dev = 0 := by
    rw [Response.bandValue, blackSheet, Array.getElem?_replicate, if_pos hj]
    exact evaluate_zero _ dev
  rw [Response.lookup, value (by decide), value (by decide), value (by decide)]

/-- The usual settings, but for a penalty for values that leave their range. -/
noncomputable def freeRange (blackFail : ℝ) : Tuning ℝ :=
  { Tuning.default with rangeWeight := 0, blackFail }

theorem blackSheet_objective (fail : ℝ) (dev : Array ℝ) :
    printerObjective ⟨blackSheet, none⟩ (freeRange fail) dev = 0 := by
  have lab (dev : Array ℝ) :
      (Response.mk (blackSheet : Parts ℝ) none).lookupLab dev = ⟨0, 0, 0⟩ := by
    have toe : labCurve (0 : ℝ) = 16 / 116 := by
      rw [LabCurve.of_toe (by norm_num), mul_zero, zero_add]
    rw [Response.lookupLab, blackSheet_lookup, Xyz.toLab]
    simp only [zero_div, toe, sub_self, mul_zero, Lab.mk.injEq, and_true]
    norm_num [Scalar.real_ofNat]
  have target : neutralTarget (Response.mk (blackSheet : Parts ℝ) none) = ⟨0, 0, 0⟩ := by
    rw [neutralTarget]
    split
    · exact lab _
    · split
      · exact lab _
      · rw [Scalar.real_zero]
  rw [printerObjective, lab, target, blackObjective, blackCost, lab]
  simp [freeRange]

theorem blackSheet_trials (fail : ℝ) :
    ∃ mins, Trials stillSolver ⟨blackSheet, none⟩ (freeRange fail) mins ∧
      ∀ m ∈ mins, m.value = 0 := by
  obtain ⟨mins, trials, values⟩ := exists_trials (r := ⟨blackSheet, none⟩) (t := freeRange fail)
    stillSolver_honest (by decide) Array.size_replicate
  exact ⟨mins, trials, fun m mem => (values m mem).trans (blackSheet_objective fail m.point)⟩

theorem neutrals_legal_black_least_blackSheet :
    (∃ built m : Model ℝ, Model.build stillSolver blackSheet (freeRange 1) = .ok built ∧
      built.setIlluminant stillSolver none = .ok m ∧ AreLegal m.toResponse m.neutrals) ∧
    (∃ points, findNeutrals stillSolver ⟨blackSheet, none⟩ (freeRange 1) = .ok points) ∧
    findNeutrals stillSolver ⟨blackSheet, none⟩ (freeRange (-1)) =
      .error (.blackPoint (some 0)) := by
  obtain ⟨legal, black⟩ := neutrals_legal_black_least stillSolver
  have points : ∃ points,
      findNeutrals stillSolver ⟨blackSheet, none⟩ (freeRange 1) = .ok points := by
    obtain ⟨mins, trials, values⟩ := blackSheet_trials 1
    obtain ⟨-, best, least, -, passes⟩ :=
      (black ⟨blackSheet, none⟩ (freeRange 1)).2 mins rfl trials
    have value : best.value ≤ 1 := (values best least.mem).trans_le zero_le_one
    obtain ⟨points, found, -⟩ := passes value
    exact ⟨points, found⟩
  refine ⟨?_, points, ?_⟩
  · obtain ⟨points, found⟩ := points
    have built := Model.build_eq_ok blackSheet_valid found
    have set : Model.setIlluminant stillSolver ⟨⟨blackSheet, none⟩, freeRange 1, points⟩ none =
        .ok ⟨⟨blackSheet, none⟩, freeRange 1, points⟩ := by
      rw [Model.setIlluminant_eq]
      simp only [Model.chosenWeights, Except.bind, found]
      rfl
    exact ⟨_, _, built, set, (legal _ _ _ _ built (.setIlluminant .built none set)).2⟩
  · obtain ⟨mins, trials, values⟩ := blackSheet_trials (-1)
    obtain ⟨-, best, least, fails, -⟩ :=
      (black ⟨blackSheet, none⟩ (freeRange (-1))).2 mins rfl trials
    have value : best.value = 0 := values best least.mem
    rw [← value]
    refine fails ?_
    rw [value]
    exact neg_one_lt_zero

end InkModel
