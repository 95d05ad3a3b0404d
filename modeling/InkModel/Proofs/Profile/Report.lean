import InkModel.Profile.Report
import InkModel.Proofs.Color.Lab
import InkModel.Proofs.Profile.Corners

/-! # Quality of a model in exact arithmetic

The squared deviations of differences from their mean add up to what the mean square is above the
square of the mean. So the mean is at most the root of the mean square, and as large only if all
differences are the same.
-/

namespace InkModel

namespace Lab

variable (p q : Lab ℝ)

theorem distance_eq : p.distance q = √((p.l - q.l) ^ 2 + (p.a - q.a) ^ 2 + (p.b - q.b) ^ 2) := by
  simp only [distance, Scalar.real_sq]
  rfl

theorem distance_nonneg : 0 ≤ p.distance q := by
  rw [distance_eq]
  exact Real.sqrt_nonneg _

theorem distance_eq_zero_iff : p.distance q = 0 ↔ p = q := by
  obtain ⟨l, a, b⟩ := p
  obtain ⟨l', a', b'⟩ := q
  rw [distance_eq, Real.sqrt_eq_zero (by positivity),
    add_eq_zero_iff_of_nonneg (by positivity) (sq_nonneg _),
    add_eq_zero_iff_of_nonneg (sq_nonneg _) (sq_nonneg _)]
  simp [sub_eq_zero, and_assoc]

end Lab

/-! The statistics of a list of differences. -/

namespace FitReport

variable {ds : List ℝ}

theorem mean_eq : (ofDifferences ds).mean = ds.sum / ds.length := by
  simp only [ofDifferences, Scalar.real_sum]
  rfl

theorem rms_eq : (ofDifferences ds).rms = √((ds.map (· ^ 2)).sum / ds.length) := by
  simp only [ofDifferences, Scalar.real_sum, pow_two]
  rfl

theorem rms_nonneg : 0 ≤ (ofDifferences ds).rms := by
  rw [rms_eq]
  exact Real.sqrt_nonneg _

theorem sum_sq_nonneg (f : ℝ → ℝ) : 0 ≤ (ds.map fun d => f d ^ 2).sum := by
  apply List.sum_nonneg
  simp only [List.mem_map, forall_exists_index, and_imp, forall_apply_eq_imp_iff₂]
  intro d _
  exact sq_nonneg _

theorem mean_nonneg (nonneg : ∀ d ∈ ds, 0 ≤ d) : 0 ≤ (ofDifferences ds).mean := by
  rw [mean_eq]
  exact div_nonneg (List.sum_nonneg nonneg) (Nat.cast_nonneg _)

section Nonempty

variable (nonempty : ds ≠ [])
include nonempty

theorem length_pos : (0 : ℝ) < ds.length := by
  exact_mod_cast List.length_pos_iff.mpr nonempty

theorem length_mul_mean : ds.length * (ofDifferences ds).mean = ds.sum := by
  rw [mean_eq, mul_div_cancel₀ _ (length_pos nonempty).ne']

theorem length_mul_rms_sq : ds.length * (ofDifferences ds).rms ^ 2 = (ds.map (· ^ 2)).sum := by
  have nonneg : (0 : ℝ) ≤ (ds.map (· ^ 2)).sum / ds.length :=
    div_nonneg (sum_sq_nonneg id) (Nat.cast_nonneg _)
  rw [rms_eq, Real.sq_sqrt nonneg, mul_div_cancel₀ _ (length_pos nonempty).ne']

/-- The squared deviations from the mean. -/
theorem sum_deviation_sq : (ds.map fun d => (d - (ofDifferences ds).mean) ^ 2).sum =
    ds.length * ((ofDifferences ds).rms ^ 2 - (ofDifferences ds).mean ^ 2) := by
  have mean := length_mul_mean nonempty
  have rms := length_mul_rms_sq nonempty
  generalize (ofDifferences ds).mean = μ at mean ⊢
  have expand (d : ℝ) : (d - μ) ^ 2 = d ^ 2 + (-(2 * μ) * d + μ ^ 2) := by ring
  have linear : (ds.map fun d => -(2 * μ) * d).sum = -(2 * μ) * ds.sum := by
    simpa using ds.sum_map_mul_left id (-(2 * μ))
  calc (ds.map fun d => (d - μ) ^ 2).sum
      = (ds.map (· ^ 2)).sum + (-(2 * μ) * ds.sum + ds.length * μ ^ 2) := by
        simp only [expand, List.sum_map_add, linear, List.map_const', List.sum_replicate,
          nsmul_eq_mul]
    _ = ds.length * ((ofDifferences ds).rms ^ 2 - μ ^ 2) := by
        rw [← rms, ← mean]
        ring

theorem mean_sq_le : (ofDifferences ds).mean ^ 2 ≤ (ofDifferences ds).rms ^ 2 := by
  have deviations : 0 ≤ ds.length * ((ofDifferences ds).rms ^ 2 - (ofDifferences ds).mean ^ 2) := by
    rw [← sum_deviation_sq nonempty]
    exact sum_sq_nonneg fun d => d - (ofDifferences ds).mean
  exact sub_nonneg.mp (nonneg_of_mul_nonneg_right deviations (length_pos nonempty))

theorem mean_le_rms : (ofDifferences ds).mean ≤ (ofDifferences ds).rms :=
  le_of_abs_le (abs_le_of_sq_le_sq (mean_sq_le nonempty) rms_nonneg)

theorem rms_eq_zero_iff : (ofDifferences ds).rms = 0 ↔ ∀ d ∈ ds, d = 0 := by
  have squares := length_mul_rms_sq nonempty
  constructor
  · intro zero d mem
    rw [zero, zero_pow two_ne_zero, mul_zero] at squares
    have each : ∀ x ∈ ds.map (· ^ 2), 0 ≤ x := by simp [sq_nonneg]
    have own : d ^ 2 = 0 :=
      List.all_zero_of_le_zero_le_of_sum_eq_zero each squares.symm (List.mem_map_of_mem mem)
    exact pow_eq_zero_iff two_ne_zero |>.mp own
  · intro all
    have none : (ds.map (· ^ 2)).sum = 0 := by
      apply List.sum_eq_zero
      simpa using all
    rw [none] at squares
    simpa [nonempty] using squares

variable (nonneg : ∀ d ∈ ds, 0 ≤ d)
include nonneg

theorem mean_eq_rms_iff : (ofDifferences ds).mean = (ofDifferences ds).rms ↔
    ∀ d ∈ ds, ∀ d' ∈ ds, d = d' := by
  have deviations := sum_deviation_sq nonempty
  constructor
  · intro same
    rw [same, sub_self, mul_zero, ← same] at deviations
    have each : ∀ x ∈ ds.map fun d => (d - (ofDifferences ds).mean) ^ 2, 0 ≤ x := by
      simp [sq_nonneg]
    have own {d : ℝ} (mem : d ∈ ds) : d = (ofDifferences ds).mean := by
      have zero : (d - (ofDifferences ds).mean) ^ 2 = 0 :=
        List.all_zero_of_le_zero_le_of_sum_eq_zero each deviations
          (List.mem_map_of_mem (f := fun d => (d - (ofDifferences ds).mean) ^ 2) mem)
      exact sub_eq_zero.mp (pow_eq_zero_iff two_ne_zero |>.mp zero)
    intro d mem d' mem'
    rw [own mem, own mem']
  · intro same
    obtain ⟨d, mem⟩ := List.exists_mem_of_ne_nil ds nonempty
    have constant : ds = List.replicate ds.length d :=
      List.eq_replicate_iff.mpr ⟨rfl, fun d' mem' => same d' mem' d mem⟩
    have sum : ds.sum = ds.length * d := by
      rw [constant]
      simp
    have mean : (ofDifferences ds).mean = d := by
      rw [mean_eq, sum, mul_div_cancel_left₀ _ (length_pos nonempty).ne']
    have none : (ds.map fun d' => (d' - d) ^ 2).sum = 0 := by
      apply List.sum_eq_zero
      intro x mem'
      obtain ⟨d', own, rfl⟩ := List.mem_map.mp mem'
      rw [same d' own d mem, sub_self, zero_pow two_ne_zero]
    rw [mean, none] at deviations
    have squares : (ofDifferences ds).rms ^ 2 = d ^ 2 := by
      apply sub_eq_zero.mp
      simpa [(length_pos nonempty).ne'] using deviations.symm
    rw [mean, ← pow_left_inj₀ (nonneg d mem) rms_nonneg two_ne_zero, squares]

theorem max_isGreatest : IsGreatest {d | d ∈ ds} (ofDifferences ds).max := by
  have largest := foldl_max_isGreatest ds 0
  have start : (ofDifferences ds).max = ds.foldl Scalar.max 0 := by
    simp only [ofDifferences, Scalar.real_zero]
  rw [← start] at largest
  obtain ⟨mem, above⟩ := largest
  refine ⟨?_, fun d own => above (List.mem_cons_of_mem _ own)⟩
  rcases List.mem_cons.mp mem with zero | own
  · -- no difference is above 0, so all of them are 0
    obtain ⟨d, own⟩ := List.exists_mem_of_ne_nil ds nonempty
    have least : d ≤ (ofDifferences ds).max := above (List.mem_cons_of_mem _ own)
    have same : d = (ofDifferences ds).max := le_antisymm least (zero ▸ nonneg d own)
    exact same ▸ own
  · exact own

theorem rms_le_max : (ofDifferences ds).rms ≤ (ofDifferences ds).max := by
  obtain ⟨mem, above⟩ := max_isGreatest nonempty nonneg
  have largest : 0 ≤ (ofDifferences ds).max := nonneg _ mem
  have squares : (ds.map (· ^ 2)).sum ≤ ds.length * (ofDifferences ds).max ^ 2 := by
    have each : ∀ x ∈ ds.map (· ^ 2), x ≤ (ofDifferences ds).max ^ 2 := by
      intro x square
      obtain ⟨d, own, rfl⟩ := List.mem_map.mp square
      exact pow_le_pow_left₀ (nonneg d own) (above own) 2
    simpa using List.sum_le_card_nsmul _ _ each
  rw [← length_mul_rms_sq nonempty] at squares
  have bound := le_of_mul_le_mul_left squares (length_pos nonempty)
  exact le_of_abs_le (abs_le_of_sq_le_sq bound largest)

end Nonempty

theorem ofDifferences_perm {ds' : List ℝ} (perm : ds.Perm ds') :
    ofDifferences ds = ofDifferences ds' := by
  have largest : ds.foldl Scalar.max 0 = ds'.foldl Scalar.max 0 := by
    apply perm.foldl_eq'
    intro x _ y _ acc
    exact sup_right_comm acc x y
  simp only [ofDifferences, Scalar.real_sum, Scalar.real_zero]
  rw [perm.length_eq, perm.sum_eq, (perm.map _).sum_eq, largest]

end FitReport

/-! The report of a model. -/

section Report

variable (m : Model ℝ) {samples : List (Sample ℝ)}

theorem difference_nonneg (s : Sample ℝ) : 0 ≤ m.difference s := Lab.distance_nonneg _ _

theorem difference_eq_zero_iff (s : Sample ℝ) :
    m.difference s = 0 ↔ m.lookupLab s.dev = s.xyz.toLab := Lab.distance_eq_zero_iff _ _

theorem fitReport_eq (nonempty : samples ≠ []) :
    m.fitReport samples = .ok (.ofDifferences (samples.map m.difference)) := by
  simp [Model.fitReport, nonempty]

/-- What the report says of the differences of a model to samples. -/
structure FitReport.IsOf (r : FitReport ℝ) (m : Model ℝ) (samples : List (Sample ℝ)) : Prop where
  count : r.count = samples.length
  mean : r.count * r.mean = (samples.map m.difference).sum
  rms : r.count * r.rms ^ 2 = (samples.map fun s => m.difference s ^ 2).sum
  max : IsGreatest {d | ∃ s ∈ samples, m.difference s = d} r.max

theorem fitReport_isOf (nonempty : samples ≠ []) :
    (FitReport.ofDifferences (samples.map m.difference)).IsOf m samples := by
  have some : samples.map m.difference ≠ [] := by simpa using nonempty
  have nonneg : ∀ d ∈ samples.map m.difference, 0 ≤ d := by simp [difference_nonneg]
  constructor
  · simp [FitReport.ofDifferences]
  · exact FitReport.length_mul_mean some
  · have squares := FitReport.length_mul_rms_sq some
    rw [List.map_map] at squares
    exact squares
  · simpa using FitReport.max_isGreatest some nonneg

end Report

/-- A report fails without samples only. Its figures are the mean of the differences, the root of
their mean square and the largest of them, in this order by size. The first two are the same just
when all differences are, and the second is 0 just when every sample is predicted exactly. The order
of the samples does not matter. -/
theorem fitReport_coherent (m : Model ℝ) (samples : List (Sample ℝ)) :
    ((∃ e, m.fitReport samples = .error e) ↔ samples = []) ∧
    (samples ≠ [] → ∃ r, m.fitReport samples = .ok r ∧ r.IsOf m samples ∧
      0 ≤ r.mean ∧ r.mean ≤ r.rms ∧ r.rms ≤ r.max ∧
      (r.mean = r.rms ↔ ∀ s ∈ samples, ∀ s' ∈ samples, m.difference s = m.difference s') ∧
      (r.rms = 0 ↔ ∀ s ∈ samples, m.lookupLab s.dev = s.xyz.toLab)) ∧
    ∀ samples', samples.Perm samples' → m.fitReport samples = m.fitReport samples' := by
  refine ⟨?_, fun nonempty => ?_, fun samples' perm => ?_⟩
  · by_cases empty : samples = [] <;> simp [Model.fitReport, empty]
  · have some : samples.map m.difference ≠ [] := by simpa using nonempty
    have nonneg : ∀ d ∈ samples.map m.difference, 0 ≤ d := by simp [difference_nonneg]
    refine ⟨_, fitReport_eq m nonempty, fitReport_isOf m nonempty, FitReport.mean_nonneg nonneg,
      FitReport.mean_le_rms some, FitReport.rms_le_max some nonneg, ?_, ?_⟩
    · simp [FitReport.mean_eq_rms_iff some nonneg]
    · simp [FitReport.rms_eq_zero_iff some, difference_eq_zero_iff]
  · unfold Model.fitReport
    rw [perm.isEmpty_eq, FitReport.ofDifferences_perm (perm.map _)]

/-- The black of the grey display, and a white that is somewhat darker than its own. -/
def greyPatches : List (Sample ℝ) := [⟨#[0], ⟨0, 0, 1⟩, none, 1⟩, ⟨#[1], ⟨90, 94, 77⟩, none, 1⟩]

theorem greyModel_black : (greyModel : Model ℝ).lookup #[0] = ⟨0, 0, 1⟩ := by
  have primary :=
    Parts.primaryColor?_corner greyLamp_valid (by decide) (isCorner_off greyLamp.layout)
  refine (Option.some.inj primary).symm.trans ?_
  change Xyz.mk (@OfNat.ofNat ℝ 0 Scalar.instOfNat) (@OfNat.ofNat ℝ 0 Scalar.instOfNat)
    (@OfNat.ofNat ℝ 1 Scalar.instOfNat) = _
  rw [Scalar.real_zero, Scalar.real_one]

theorem greyModel_white : (greyModel : Model ℝ).lookup #[1] = ⟨96, 100, 82⟩ := by
  have primary :=
    Parts.primaryColor?_corner greyLamp_valid (by decide) (isCorner_full greyLamp.layout)
  exact (Option.some.inj primary).symm

theorem fitReport_coherent_greyPatches :
    ∃ r, (greyModel : Model ℝ).fitReport greyPatches = .ok r ∧ r.count = 2 ∧ r.mean < r.rms ∧
      r.rms ≤ r.max ∧ (greyModel : Model ℝ).fitReport greyPatches.reverse = .ok r := by
  obtain ⟨-, report, order⟩ := fitReport_coherent greyModel greyPatches
  obtain ⟨r, found, own, -, below, above, same, -⟩ := report (List.cons_ne_nil _ _)
  have exact : (greyModel : Model ℝ).difference ⟨#[0], ⟨0, 0, 1⟩, none, 1⟩ = 0 := by
    rw [difference_eq_zero_iff, Response.lookupLab, greyModel_black]
  have off : (greyModel : Model ℝ).difference ⟨#[1], ⟨90, 94, 77⟩, none, 1⟩ ≠ 0 := by
    rw [Ne, difference_eq_zero_iff, Response.lookupLab, greyModel_white]
    intro alike
    have colors := congrArg Lab.toXyz alike
    rw [Xyz.toXyz_toLab, Xyz.toXyz_toLab, Xyz.mk.injEq] at colors
    norm_num at colors
  refine ⟨r, found, own.count, lt_of_le_of_ne below fun equal => ?_, above, ?_⟩
  · have differences := same.mp equal _ List.mem_cons_self _
      (List.mem_cons_of_mem _ List.mem_cons_self)
    exact off (differences.symm.trans exact)
  · rw [← order _ (List.reverse_perm _).symm, found]

end InkModel
