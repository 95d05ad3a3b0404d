import InkModel.Fit.Schedule
import InkModel.Proofs.Cgats.Run
import InkModel.Proofs.Double

/-! # Samples that are taken

A fit takes all of its samples or none. It looks at the number of their device values, at these and
the colour, which have to be finite, at the sign of the weight, and at the length of the spectrum,
in this order; the first sample with a fault is reported. An infinite weight and values of a
spectrum that are not finite pass.
-/

namespace InkModel

section Samples

variable {α : Type} [Scalar α] {n spectralBands : ℕ} {s : Sample α}

/-- What is asked of a sample. -/
structure Sample.Accepted (s : Sample α) (n spectralBands : ℕ) : Prop where
  device : s.dev.size = n
  finiteDevice : ∀ x ∈ s.dev, Scalar.isFinite x = true
  finiteColor : ∀ x ∈ s.xyz.toList, Scalar.isFinite x = true
  weight : 0 ≤ s.weight
  spectrum : spectralBands ≠ 0 →
    ∃ values, s.spectrum = some values ∧ values.size = spectralBands

/-- A sample that an objective can be computed with: its weight and its spectrum are finite too. -/
structure Sample.Sound (s : Sample α) (n spectralBands : ℕ) : Prop
    extends s.Accepted n spectralBands where
  finiteWeight : Scalar.isFinite s.weight = true
  finiteSpectrum : spectralBands ≠ 0 →
    ∀ values ∈ s.spectrum, ∀ x ∈ values, Scalar.isFinite x = true

/-- The colour, then the spectrum of a spectral fit. -/
def Sample.target (s : Sample α) (spectralBands : ℕ) : Array α :=
  #[s.xyz.x, s.xyz.y, s.xyz.z] ++ if spectralBands = 0 then #[] else s.spectrum.getD #[]

/-- The point of a fit that a sample becomes. -/
def Sample.point (spectralBands : ℕ) (s : Sample α) : FitPoint α where
  dev := s.dev.map saturate
  target := s.target spectralBands
  lightTarget := (s.target spectralBands).map lightness
  weight := s.weight

omit [Scalar α] in
theorem targets_eq_ok_iff {target : Array α} : s.targets spectralBands = .ok target ↔
    (spectralBands ≠ 0 → ∃ values, s.spectrum = some values ∧ values.size = spectralBands) ∧
      target = s.target spectralBands := by
  unfold Sample.targets Sample.target
  by_cases plain : spectralBands = 0
  · simp [plain, eq_comm]
  · cases s.spectrum with
    | none => simp [plain]
    | some values =>
        by_cases size : values.size = spectralBands
        · simp [plain, size, eq_comm]
        · simp [plain, size]

theorem prepare_eq_ok_iff {p : FitPoint α} : s.prepare n spectralBands = .ok p ↔
    s.Accepted n spectralBands ∧ p = s.point spectralBands := by
  have finite_iff : (s.dev.all Scalar.isFinite && s.xyz.toList.all Scalar.isFinite) = true ↔
      (∀ x ∈ s.dev, Scalar.isFinite x = true) ∧ ∀ x ∈ s.xyz.toList, Scalar.isFinite x = true := by
    rw [Bool.and_eq_true, Array.all_eq_true_iff_forall_mem, List.all_eq_true]
  unfold Sample.prepare
  split
  · rename_i size
    simpa using fun accepted : s.Accepted n spectralBands => absurd accepted.device size
  · rename_i size
    split
    · rename_i infinite
      have refused : ¬s.Accepted n spectralBands := by
        intro accepted
        simp [finite_iff.mpr ⟨accepted.finiteDevice, accepted.finiteColor⟩] at infinite
      simp [refused]
    · rename_i finite
      rw [Bool.not_eq_true', Bool.not_eq_false, finite_iff] at finite
      split
      · rename_i weight
        rw [map_eq_ok_iff]
        constructor
        · rintro ⟨target, targets, rfl⟩
          obtain ⟨spectrum, rfl⟩ := targets_eq_ok_iff.mp targets
          exact ⟨⟨not_not.mp size, finite.1, finite.2, weight, spectrum⟩, rfl⟩
        · rintro ⟨accepted, rfl⟩
          exact ⟨_, targets_eq_ok_iff.mpr ⟨accepted.spectrum, rfl⟩, rfl⟩
      · rename_i weight
        simpa using fun accepted : s.Accepted n spectralBands => absurd accepted.weight weight

theorem prepare_accepted (accepted : s.Accepted n spectralBands) :
    s.prepare n spectralBands = .ok (s.point spectralBands) :=
  prepare_eq_ok_iff.mpr ⟨accepted, rfl⟩

theorem forall₂_prepare {samples : List (Sample α)}
    (accepted : ∀ s ∈ samples, s.Accepted n spectralBands) :
    List.Forall₂ (fun s p => s.prepare n spectralBands = .ok p) samples
      (samples.map (Sample.point spectralBands)) :=
  List.forall₂_map_right_iff.mpr
    (List.forall₂_same.mpr fun s mem => prepare_accepted (accepted s mem))

theorem exists_fault (refused : ¬s.Accepted n spectralBands) :
    ∃ fault, s.prepare n spectralBands = .error fault := by
  cases found : s.prepare n spectralBands with
  | error fault => exact ⟨fault, rfl⟩
  | ok p => exact absurd (prepare_eq_ok_iff.mp found).1 refused

/-- The first sample with a fault, and the fault that is found first in it. -/
structure FirstFault (n spectralBands : ℕ) (samples : List (Sample α)) (index : ℕ)
    (fault : SampleFault α) : Prop where
  here : ∃ s, samples[index]? = some s ∧ ¬s.Accepted n spectralBands ∧
    s.prepare n spectralBands = .error fault
  before : ∀ s ∈ samples.take index, s.Accepted n spectralBands

theorem FirstFault.cons {samples : List (Sample α)} {index : ℕ} {fault : SampleFault α}
    (accepted : s.Accepted n spectralBands) (h : FirstFault n spectralBands samples index fault) :
    FirstFault n spectralBands (s :: samples) (index + 1) fault :=
  ⟨h.here, List.forall_mem_cons.mpr ⟨accepted, h.before⟩⟩

/-- There is one first fault at most. -/
theorem FirstFault.unique {samples : List (Sample α)} {index index' : ℕ}
    {fault fault' : SampleFault α}
    (h : FirstFault n spectralBands samples index fault)
    (h' : FirstFault n spectralBands samples index' fault') : index = index' ∧ fault = fault' := by
  have not_before {i i' : ℕ} {f f' : SampleFault α} (h : FirstFault n spectralBands samples i f)
      (h' : FirstFault n spectralBands samples i' f') : ¬i < i' := by
    intro less
    obtain ⟨s, here, refused, -⟩ := h.here
    apply refused
    apply h'.before
    rw [List.mem_iff_getElem?]
    exact ⟨i, by simpa [less] using here⟩
  have same : index = index' := by
    have := not_before h h'
    have := not_before h' h
    omega
  subst same
  obtain ⟨s, here, -, found⟩ := h.here
  obtain ⟨s', here', -, found'⟩ := h'.here
  obtain rfl : s = s' := by simpa [here] using here'
  simpa [found] using found'

variable (n spectralBands) in
/-- Samples are taken one by one, up to the first fault. -/
theorem preparePoints_eq (start : ℕ) (samples : List (Sample α)) :
    (∀ s ∈ samples, s.Accepted n spectralBands) ∧
      preparePoints n spectralBands start samples = .ok (samples.map (Sample.point spectralBands)) ∨
    ∃ index fault, FirstFault n spectralBands samples index fault ∧
      preparePoints n spectralBands start samples =
        .error (.invalidSample (start + index) fault) := by
  induction samples generalizing start with
  | nil => exact .inl ⟨nofun, rfl⟩
  | cons s samples ih =>
      rw [preparePoints]
      by_cases accepted : s.Accepted n spectralBands
      · rw [prepare_accepted accepted]
        obtain ⟨all, taken⟩ | ⟨index, fault, first, refused⟩ := ih (start + 1)
        · refine .inl ⟨List.forall_mem_cons.mpr ⟨accepted, all⟩, ?_⟩
          dsimp only
          rw [taken]
          rfl
        · refine .inr ⟨index + 1, fault, first.cons accepted, ?_⟩
          dsimp only
          rw [refused, Nat.add_assoc, Nat.add_comm 1]
          rfl
      · obtain ⟨fault, found⟩ := exists_fault accepted
        refine .inr ⟨0, fault, ⟨⟨s, rfl, accepted, found⟩, nofun⟩, ?_⟩
        rw [found]
        rfl

/-- There is a first fault exactly when a sample has one. -/
theorem FirstFault.refused {samples : List (Sample α)} {index : ℕ} {fault : SampleFault α}
    (h : FirstFault n spectralBands samples index fault) :
    ¬∀ s ∈ samples, s.Accepted n spectralBands := by
  intro all
  obtain ⟨s, here, refused, -⟩ := h.here
  exact refused (all s (List.mem_of_getElem? here))

theorem fitPoints_eq_ok_iff {samples : List (Sample α)} {points : List (FitPoint α)} :
    fitPoints n spectralBands samples = .ok points ↔
      samples ≠ [] ∧ (∀ s ∈ samples, s.Accepted n spectralBands) ∧
        points = samples.map (Sample.point spectralBands) := by
  unfold fitPoints
  by_cases empty : samples = []
  · simp [empty]
  · obtain ⟨all, taken⟩ | ⟨index, fault, first, refused⟩ :=
      preparePoints_eq n spectralBands 0 samples
    · simp only [List.isEmpty_iff, empty, if_false, taken, Except.ok.injEq]
      exact ⟨fun same => ⟨empty, all, same.symm⟩, fun same => same.2.2.symm⟩
    · simp [empty, refused, first.refused]

theorem fitPoints_eq_error_iff {samples : List (Sample α)} {e : ModelError α} :
    fitPoints n spectralBands samples = .error e ↔
      samples = [] ∧ e = .noSamples ∨
        ∃ index fault, FirstFault n spectralBands samples index fault ∧
          e = .invalidSample index fault := by
  unfold fitPoints
  by_cases empty : samples = []
  · have none (index : ℕ) (fault : SampleFault α) : ¬FirstFault n spectralBands [] index fault := by
      intro first
      exact first.refused nofun
    simp [empty, none, eq_comm]
  · obtain ⟨all, taken⟩ | ⟨index, fault, first, refused⟩ :=
      preparePoints_eq n spectralBands 0 samples
    · have none (index : ℕ) (fault : SampleFault α) :
          ¬FirstFault n spectralBands samples index fault := fun first => first.refused all
      simp [empty, taken, none]
    · rw [Nat.zero_add] at refused
      simp only [List.isEmpty_iff, empty, if_false, refused, Except.error.injEq, false_and,
        false_or]
      constructor
      · intro same
        exact ⟨index, fault, first, same.symm⟩
      · intro ⟨index', fault', first', same⟩
        obtain ⟨rfl, rfl⟩ := first.unique first'
        exact same.symm

end Samples

/-! Device values are doubles. -/

section Doubles

/-- A double within the range of a device, which is `x` when that is. -/
structure IsClampOf (x d : Float) : Prop where
  nonneg : 0 ≤ d
  le_one : d ≤ 1
  inside : 0 ≤ x → x ≤ 1 → d = x
  below : x < 0 → d = 0
  above : 1 < x → d = 1

theorem saturate_eq {x : Float} (defined : x.isNaN = false) :
    saturate x = if x < 0 then 0 else if 1 < x then 1 else x := by
  have zero : (0 : Float).isNaN = false := by decide
  have one : (1 : Float).isNaN = false := by decide
  have least : floatMin 0 1 = 0 := by decide
  have raised : floatMax x 0 = if x < 0 then 0 else x := by
    rw [floatMax, defined, zero]
    rfl
  change floatMin (floatMax x 0) 1 = _
  rw [raised]
  split
  · exact least
  · rw [floatMin, defined, one]
    rfl

theorem saturate_isClampOf {x : Float} (finite : x.isFinite = true) : IsClampOf x (saturate x) := by
  have defined := Double.isNaN_of_isFinite finite
  have zero : (0 : Float).isNaN = false := by decide
  have one : (1 : Float).isNaN = false := by decide
  have unit : (0 : Float) ≤ 1 := by decide
  rw [saturate_eq defined]
  by_cases below : x < 0
  · rw [if_pos below]
    exact {
      nonneg := Double.le_refl zero
      le_one := unit
      inside := fun above _ => absurd below (Double.not_lt_of_le above)
      below := fun _ => rfl
      above := fun above => absurd (Double.lt_trans above below) (Double.not_lt_of_le unit) }
  · rw [if_neg below]
    by_cases above : 1 < x
    · rw [if_pos above]
      exact {
        nonneg := unit
        le_one := Double.le_refl one
        inside := fun _ most => absurd above (Double.not_lt_of_le most)
        below := fun less => absurd less below
        above := fun _ => rfl }
    · rw [if_neg above]
      exact {
        nonneg := Double.le_of_not_lt defined zero below
        le_one := Double.le_of_not_lt one defined above
        inside := fun _ _ => rfl
        below := fun less => absurd less below
        above := fun more => absurd more above }

/-- Samples are taken together when all of them are accepted, in their order and with their device
values brought into range. Otherwise the first sample with a fault is reported, or that there is
none. -/
theorem fitPoints_takes_all_or_none (n spectralBands : ℕ) (samples : List (Sample Float)) :
    (∀ points, fitPoints n spectralBands samples = .ok points ↔
      samples ≠ [] ∧ (∀ s ∈ samples, s.Accepted n spectralBands) ∧
        points = samples.map (Sample.point spectralBands)) ∧
    (∀ s : Sample Float, s.Accepted n spectralBands →
      (s.point spectralBands).dev.size = n ∧
      ∀ i (hi : i < s.dev.size), ∃ d, (s.point spectralBands).dev[i]? = some d ∧
        IsClampOf s.dev[i] d) ∧
    ∀ e, fitPoints n spectralBands samples = .error e ↔
      samples = [] ∧ e = .noSamples ∨
        ∃ index fault, FirstFault n spectralBands samples index fault ∧
          e = .invalidSample index fault := by
  refine ⟨fun points => fitPoints_eq_ok_iff, fun s accepted => ⟨?_, ?_⟩,
    fun e => fitPoints_eq_error_iff⟩
  · simp [Sample.point, accepted.device]
  · intro i hi
    have finite := accepted.finiteDevice s.dev[i] (Array.getElem_mem hi)
    exact ⟨saturate s.dev[i], by simp [Sample.point, hi], saturate_isClampOf finite⟩

/-- A measurement of infinite weight. -/
def heavySample : Sample Float := ⟨#[0], ⟨0, 0, 0⟩, none, 1 / 0⟩

/-- A measurement with an undefined value in its spectrum. -/
def undefinedSample : Sample Float := ⟨#[0], ⟨0, 0, 0⟩, some #[0, 0 / 0], 1⟩

/-- Neither an infinite weight nor an undefined value in a spectrum is a fault. -/
theorem unsound_samples_taken :
    (∃ points, fitPoints 1 0 [heavySample] = .ok points) ∧ ¬heavySample.Sound 1 0 ∧
      (∃ points, fitPoints 1 2 [undefinedSample] = .ok points) ∧ ¬undefinedSample.Sound 1 2 := by
  have finite : ∀ x ∈ [(0 : Float), 0, 0], Scalar.isFinite x = true := by decide
  have heavy : heavySample.Accepted 1 0 := {
    device := rfl
    finiteDevice := by simpa [heavySample] using finite
    finiteColor := finite
    weight := by decide
    spectrum := nofun }
  have undefined : undefinedSample.Accepted 1 2 := {
    device := rfl
    finiteDevice := by simpa [undefinedSample] using finite
    finiteColor := finite
    weight := by decide
    spectrum := fun _ => ⟨_, rfl, rfl⟩ }
  refine ⟨⟨_, fitPoints_eq_ok_iff.mpr ⟨by simp, by simpa using heavy, rfl⟩⟩, ?_,
    ⟨_, fitPoints_eq_ok_iff.mpr ⟨by simp, by simpa using undefined, rfl⟩⟩, ?_⟩
  · intro sound
    have weight : heavySample.weight.isFinite = false := by decide
    exact absurd sound.finiteWeight (Bool.eq_false_iff.mp weight)
  · intro sound
    have value : (0 / 0 : Float).isFinite = false := by decide
    exact absurd (sound.finiteSpectrum two_ne_zero _ rfl (0 / 0) (by simp))
      (Bool.eq_false_iff.mp value)

end Doubles

end InkModel
