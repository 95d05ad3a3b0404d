import InkModel.Profile.Gamut
import InkModel.Proofs.Color.Spectrum
import InkModel.Proofs.Profile.RoundTrip

/-! # Light sources in turn

A model is put under one light source after another. What came before the last call that was
accepted leaves no trace, a call that is refused changes nothing, and what does not depend on a
light source stays as it is.
-/

namespace InkModel

section Weights

variable {α : Type} [Scalar α] {s : SpectralShape α} {spectrum : Array α}

theorem SpectralShape.integrateFrom_isSome (size : spectrum.size = s.bands) (two : 2 ≤ s.bands) :
    ∀ (ws : List (Xyz α)) (i : ℕ) (acc : Xyz α),
      ∃ c, s.integrateFrom spectrum i acc ws = some c
  | [], _, acc => ⟨acc, rfl⟩
  | w :: ws, i, acc => by
      simp only [integrateFrom, sample?_eq size two]
      exact integrateFrom_isSome size two ws _ _

/-- The contributions of the bands are the colours of single bands. -/
theorem bandWeights_of_converts {ill : Illuminant} {color : ℕ → Xyz α}
    (converts : ∀ i, SpectralShape.convert { s with norm := 1 } ill (singleBand s.bands i) =
      .ok (color i)) :
    bandWeights ill s = .ok ((List.range s.bands).map color) := by
  apply mapM_eq_ok_iff.mpr
  exact List.forall₂_map_right_iff.mpr (List.forall₂_same.mpr fun i _ => converts i)

/-- A layout of two bands or more has a colour under every light source. -/
theorem exists_bandWeights (two : 2 ≤ s.bands) (ill : Illuminant) :
    ∃ weights, bandWeights ill s = .ok weights := by
  have converts (i : ℕ) : ∃ c, SpectralShape.convert { s with norm := 1 } ill
      (singleBand s.bands i) = .ok c := by
    obtain ⟨c, sum⟩ := SpectralShape.integrateFrom_isSome (s := { s with norm := 1 })
      (singleBand_size s.bands i) two ill.weights 0 ⟨0, 0, 0⟩
    rw [SpectralShape.convert, if_neg (not_not.mpr (singleBand_size s.bands i)), sum]
    exact ⟨c, rfl⟩
  choose color converts using converts
  exact ⟨_, bandWeights_of_converts converts⟩

end Weights

namespace Model

section Calls

variable {α : Type} [Scalar α] {solver : Solver α} {m m' built : Model α}

/-- The answers to calls in turn, and the model behind them. -/
def changeAll (solver : Solver α) (m : Model α) :
    List (Option Illuminant) → List (Except (Failure (ModelError α)) Unit) × Model α
  | [] => ([], m)
  | ill :: calls =>
    let first := m.changeIlluminant solver ill
    let others := first.2.changeAll solver calls
    (first.1 :: others.1, others.2)

/-- The light source of the last call that was accepted. -/
def lastAccepted (calls : List (Option Illuminant))
    (answers : List (Except (Failure (ModelError α)) Unit)) : Option (Option Illuminant) :=
  (((calls.zip answers).filter fun call => call.2.isOk).getLast?).map Prod.fst

/-- The call in place does what a new model under the light source would: the weights that are
there during the search are gone when it fails. -/
theorem changeIlluminant_eq (solver : Solver α) (m : Model α) (ill : Option Illuminant) :
    m.changeIlluminant solver ill =
      match m.setIlluminant solver ill with
      | .ok m' => (.ok (), m')
      | .error e => (.error e, m) := by
  rw [setIlluminant_eq, changeIlluminant]
  cases chosenWeights m.parts ill with
  | error e => rfl
  | ok weights =>
      dsimp only [Except.bind]
      cases findNeutrals solver ⟨m.parts, weights⟩ m.tuning with
      | error e => rfl
      | ok neutrals => rfl

theorem changeIlluminant_ok {ill : Option Illuminant} {u : Unit}
    (h : m.changeIlluminant solver ill = (.ok u, m')) : m.setIlluminant solver ill = .ok m' := by
  rw [changeIlluminant_eq] at h
  split at h
  · cases h
    assumption
  · cases h

theorem changeIlluminant_error {ill : Option Illuminant} {e : Failure (ModelError α)}
    (h : m.changeIlluminant solver ill = (.error e, m')) : m' = m := by
  rw [changeIlluminant_eq] at h
  split at h
  · cases h
  · cases h
    rfl

/-- A call depends on nothing that an earlier call has changed. -/
theorem setIlluminant_congr (parts : m.parts = built.parts) (tuning : m.tuning = built.tuning)
    (ill : Option Illuminant) : m.setIlluminant solver ill = built.setIlluminant solver ill := by
  rw [setIlluminant_eq, setIlluminant_eq, parts, tuning]

theorem changeAll_cons {ill : Option Illuminant} {calls : List (Option Illuminant)}
    {answers : List (Except (Failure (ModelError α)) Unit)} :
    m.changeAll solver (ill :: calls) = (answers, m') ↔
      ∃ first next others, m.changeIlluminant solver ill = (first, next) ∧
        next.changeAll solver calls = (others, m') ∧ first :: others = answers := by
  constructor
  · intro h
    cases h
    exact ⟨_, _, _, rfl, rfl, rfl⟩
  · rintro ⟨first, next, others, call, rest, rfl⟩
    rw [changeAll, call, rest]

omit [Scalar α] in
theorem lastAccepted_cons_ok {ill : Option Illuminant} {calls : List (Option Illuminant)}
    {u : Unit} {answers : List (Except (Failure (ModelError α)) Unit)} :
    lastAccepted (ill :: calls) (.ok u :: answers) =
      some ((lastAccepted calls answers).getD ill) := by
  have accepted : (Except.ok u : Except (Failure (ModelError α)) Unit).isOk = true := rfl
  rw [lastAccepted, lastAccepted, List.zip_cons_cons, List.filter_cons, if_pos accepted,
    List.getLast?_cons, Option.map_some, ← Option.getD_map Prod.fst]

/-- After calls in turn the model is as after the last accepted call alone, made on the model
that the calls began with. -/
theorem changeAll_eq {calls : List (Option Illuminant)} :
    ∀ {m : Model α} {answers : List (Except (Failure (ModelError α)) Unit)},
      m.changeAll solver calls = (answers, m') →
      m'.parts = m.parts ∧ m'.tuning = m.tuning ∧
        match lastAccepted calls answers with
        | none => m' = m
        | some ill => m.setIlluminant solver ill = .ok m' := by
  induction calls with
  | nil =>
      intro m answers h
      cases h
      exact ⟨rfl, rfl, rfl⟩
  | cons ill calls ih =>
      intro m answers h
      obtain ⟨first, next, others, call, rest, rfl⟩ := changeAll_cons.mp h
      obtain ⟨parts, tuning, last⟩ := ih rest
      cases first with
      | error e =>
          obtain rfl := changeIlluminant_error call
          exact ⟨parts, tuning, last⟩
      | ok u =>
          have set := changeIlluminant_ok call
          obtain ⟨-, sameParts, sameTuning, -⟩ := setIlluminant_eq_ok set
          refine ⟨parts.trans sameParts, tuning.trans sameTuning, ?_⟩
          rw [lastAccepted_cons_ok]
          cases later : lastAccepted calls others with
          | none =>
              rw [later] at last
              rw [last]
              exact set
          | some ill' =>
              rw [later] at last
              exact (setIlluminant_congr sameParts sameTuning ill').symm.trans last

/-- What of a model no light source reaches: its bands, its spectra, what it is made for and
its file. -/
structure SameDevice [Numeral α] (m built : Model α) : Prop where
  valueOfBand : ∀ j dev, m.valueOfBand j dev = built.valueOfBand j dev
  slopesOfBand : ∀ j dev, m.slopesOfBand j dev = built.slopesOfBand j dev
  lookupSpectrum : ∀ dev, m.lookupSpectrum dev = built.lookupSpectrum dev
  deviceClass : m.deviceClass = built.deviceClass
  limit : m.limit = built.limit
  parts : m.parts = built.parts
  toFile : ∀ enc, m.toFile enc = built.toFile enc

theorem SameDevice.of_eq [Numeral α] (parts : m.parts = built.parts)
    (tuning : m.tuning = built.tuning) : SameDevice m built := by
  obtain ⟨⟨p, weights⟩, u, neutrals⟩ := m
  obtain ⟨⟨p', weights'⟩, u', neutrals'⟩ := built
  obtain rfl : p = p' := parts
  obtain rfl : u = u' := tuning
  exact ⟨fun _ _ => rfl, fun _ _ => rfl, fun _ => rfl, rfl, rfl, rfl, fun _ => rfl⟩

/-- Whatever calls are made on a model that was built, accepted or refused: the model is the one
that the last accepted call alone makes of the built model, a refused call leaves the model as
it is, giving up the light source brings the built model back, and nothing else changes. -/
theorem changeAll_traceless [Numeral α] {parts : Parts α} {tuning : Tuning α}
    {calls : List (Option Illuminant)} {answers : List (Except (Failure (ModelError α)) Unit)}
    (build : build solver parts tuning = .ok built)
    (called : built.changeAll solver calls = (answers, m)) :
    (match lastAccepted calls answers with
      | none => m = built
      | some ill => built.changeIlluminant solver ill = (.ok (), m)) ∧
    (∀ ill e m', m.changeIlluminant solver ill = (.error e, m') → m' = m) ∧
    m.changeIlluminant solver none = (.ok (), built) ∧ SameDevice m built := by
  obtain ⟨sameParts, sameTuning, last⟩ := changeAll_eq called
  obtain ⟨-, response, own, found⟩ := of_build build
  have back : built.setIlluminant solver none = .ok built := by
    rw [setIlluminant_eq, own, show built.parts = parts from congrArg Response.parts response]
    change ((findNeutrals solver ⟨parts, none⟩ tuning).mapError _).map _ = _
    rw [found, Except.mapError, Except.map, ← response, ← own]
  refine ⟨?_, fun _ _ _ => changeIlluminant_error, ?_, .of_eq sameParts sameTuning⟩
  · split at last
    · exact last
    · rw [changeIlluminant_eq, last]
  · rw [changeIlluminant_eq, setIlluminant_congr sameParts sameTuning, back]

/-- A display with spectral bands takes every light source. -/
theorem changeIlluminant_display (solver : Solver α) (m : Model α) {s : SpectralShape α}
    (display : m.parts.inks.additive) (spectral : m.parts.spectral = some s) (two : 2 ≤ s.bands)
    (ill : Illuminant) :
    ∃ m', m.changeIlluminant solver (some ill) = (.ok (), m') ∧ m'.parts = m.parts := by
  obtain ⟨weights, found⟩ := exists_bandWeights two ill
  have chosen : chosenWeights m.parts (some ill) = .ok (some weights) := by
    simp only [chosenWeights, spectral, found]
    rfl
  rw [changeIlluminant, chosen]
  simp only [findNeutrals, display, if_true]
  exact ⟨_, rfl, rfl⟩

end Calls

end Model

attribute [local instance] Numeral.whole

theorem changeAll_traceless_greyModel :
    ∃ m, (greyModel : Model ℝ).changeAll stillSolver [some .d50, some .a] =
        ([.ok (), .ok ()], m) ∧
      (greyModel : Model ℝ).changeIlluminant stillSolver (some .a) = (.ok (), m) ∧
      m.changeIlluminant stillSolver none = (.ok (), greyModel) := by
  obtain ⟨daylit, first, parts⟩ :=
    Model.changeIlluminant_display stillSolver (greyModel : Model ℝ) rfl rfl le_rfl .d50
  obtain ⟨m, second, -⟩ := Model.changeIlluminant_display stillSolver daylit
    (by rw [parts]; rfl) (by rw [parts]; rfl) le_rfl .a
  have called : (greyModel : Model ℝ).changeAll stillSolver [some .d50, some .a] =
      ([.ok (), .ok ()], m) := by
    rw [Model.changeAll, first, Model.changeAll, second, Model.changeAll]
  obtain ⟨last, -, back, -⟩ := Model.changeAll_traceless
    (Model.build_eq_ok greyLamp_valid rfl : Model.build stillSolver _ _ = .ok greyModel) called
  exact ⟨m, called, last, back⟩

end InkModel
