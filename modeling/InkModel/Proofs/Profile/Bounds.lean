import InkModel.Machine
import InkModel.Proofs.Profile.Access
import InkModel.Proofs.Profile.Illuminant
import InkModel.Proofs.Profile.Threshold

/-! # Queries within their tables

The queries of a model with every access checked: there is no answer when one lies outside its
table. In whatever order they are made and whatever they are given, the queries of a model that was
built have an answer, and it is the one they have without the checks. Only a light source for
spectra of a single band has none, which has no neighbour for the values between bands.
-/

namespace InkModel

/-! Light sources. -/

section Light

variable {α : Type} [Scalar α] {s : SpectralShape α}

theorem weights_ne_nil (ill : Illuminant) : (ill.weights : List (Xyz α)) ≠ [] := by
  cases ill <;>
    simp [Illuminant.weights, Illuminant.weightsOf, Illuminant.powers, observerTable, daylightTable]

theorem bandWeights_single (single : s.bands = 1) (ill : Illuminant) :
    bandWeights ill s = .error .outside := by
  obtain ⟨w, ws, weights⟩ := List.exists_cons_of_ne_nil (weights_ne_nil (α := α) ill)
  have size : (singleBand s.bands 0 : Array α).size = s.bands := singleBand_size s.bands 0
  have missing := SpectralShape.sample?_of_few (s := { s with norm := 1 }) (by simp [single]) size
  have converted : SpectralShape.convert { s with norm := 1 } ill (singleBand s.bands 0) =
      .error .outside := by
    rw [SpectralShape.convert, if_neg (not_not.mpr size), weights, SpectralShape.integrateFrom,
      missing]
  change (List.range s.bands).mapM (fun i => SpectralShape.convert { s with norm := 1 } ill
    (singleBand s.bands i)) = _
  have one : List.range s.bands = [0] := by rw [single]; rfl
  rw [one, List.mapM_cons, converted]
  rfl

/-- Only a single band has no colour under a light source. -/
theorem bandWeights_eq_outside_iff (ill : Illuminant) :
    bandWeights ill s = .error .outside ↔ s.bands = 1 := by
  refine ⟨fun outside => ?_, fun single => bandWeights_single single ill⟩
  by_contra other
  rcases Nat.lt_or_ge s.bands 2 with few | two
  · have none : List.range s.bands = [] := by
      rw [show s.bands = 0 by omega]
      rfl
    rw [bandWeights, none] at outside
    cases outside
  · obtain ⟨weights, found⟩ := exists_bandWeights two ill
    rw [found] at outside
    cases outside

theorem Model.chosenWeights_eq_outside_iff {parts : Parts α} {ill : Option Illuminant} :
    chosenWeights parts ill = .error .outside ↔
      ill.isSome ∧ ∃ s, parts.spectral = some s ∧ s.bands = 1 := by
  unfold chosenWeights
  cases ill with
  | none => simp
  | some i =>
      cases parts.spectral with
      | none => simp
      | some s =>
          simp [mapError_eq_outside_iff, map_eq_outside_iff, bandWeights_eq_outside_iff]

end Light

/-! Queries in turn. -/

namespace Model

section Queries

variable {α : Type} [Scalar α] {solver : Solver α} {m built : Model α} {parts : Parts α}

inductive Query (α : Type) where
  | setIlluminant (ill : Option Illuminant)
  | lookup (dev : Array α)
  | lookupSpectrum (dev : Array α)

inductive Answer (α : Type) where
  | changed (result : Except (Failure (ModelError α)) Unit)
  | color (value : Xyz α)
  | spectrum (result : Except (ModelError α) (List α))

/-- The answer to a query, and the model behind it. -/
def answer (solver : Solver α) (m : Model α) : Query α → Answer α × Model α
  | .setIlluminant ill =>
    let change := m.changeIlluminant solver ill
    (.changed change.1, change.2)
  | .lookup dev => (.color (m.lookup dev), m)
  | .lookupSpectrum dev => (.spectrum (m.lookupSpectrum dev), m)

/-- The change of the light source with the accesses of the weights and of the search checked. -/
noncomputable def changeIlluminant? (solver : Solver α) (m : Model α) (ill : Option Illuminant) :
    Except (Failure (ModelError α)) Unit × Model α :=
  match chosenWeights? m.parts ill with
  | .error e => (.error e, m)
  | .ok weights =>
    let installed : Model α := { m with weights }
    match findNeutrals? solver installed.toResponse installed.tuning with
    | .ok neutrals => (.ok (), { installed with neutrals })
    | .error e => (.error e, { installed with weights := m.weights })

/-- The answer with every access checked. -/
noncomputable def answer? (solver : Solver α) (m : Model α) :
    Query α → Option (Answer α × Model α)
  | .setIlluminant ill =>
    match m.changeIlluminant? solver ill with
    | (.error .outside, _) => none
    | (result, m') => some (.changed result, m')
  | .lookup dev => (m.lookup? dev).map fun value => (.color value, m)
  | .lookupSpectrum dev => (m.lookupSpectrum? dev).map fun result => (.spectrum result, m)

def answerAll (solver : Solver α) (m : Model α) : List (Query α) → List (Answer α) × Model α
  | [] => ([], m)
  | query :: queries =>
    let first := m.answer solver query
    let others := first.2.answerAll solver queries
    (first.1 :: others.1, others.2)

noncomputable def answerAll? (solver : Solver α) (m : Model α) :
    List (Query α) → Option (List (Answer α) × Model α)
  | [] => some ([], m)
  | query :: queries =>
    (m.answer? solver query).bind fun first =>
      (first.2.answerAll? solver queries).map fun others => (first.1 :: others.1, others.2)

/-- Whether a query puts spectra of a single band under a light source. -/
def Query.MeetsSingleBand (parts : Parts α) (query : Query α) : Prop :=
  (∃ ill, query = .setIlluminant (some ill)) ∧ ∃ s, parts.spectral = some s ∧ s.bands = 1

/-- The change never leaves its tables but where it says so. -/
theorem changeIlluminant?_eq (valid : m.parts.Valid) (ill : Option Illuminant) :
    m.changeIlluminant? solver ill = m.changeIlluminant solver ill := by
  rw [changeIlluminant?, chosenWeights?_eq, changeIlluminant]
  cases chosenWeights m.parts ill with
  | error e => rfl
  | ok weights =>
      have search := findNeutrals?_eq (r := ⟨m.parts, weights⟩) valid solver m.tuning
      dsimp only
      rw [search]
      cases findNeutrals solver ⟨m.parts, weights⟩ m.tuning <;> rfl

theorem changeIlluminant_eq_outside_iff (solver : Solver α) {ill : Option Illuminant} :
    (m.changeIlluminant solver ill).1 = .error .outside ↔
      (Query.setIlluminant ill).MeetsSingleBand m.parts := by
  have meets : (Query.setIlluminant ill).MeetsSingleBand m.parts ↔
      ill.isSome ∧ ∃ s, m.parts.spectral = some s ∧ s.bands = 1 := by
    simp [Query.MeetsSingleBand, Option.isSome_iff_exists]
  rw [meets, ← chosenWeights_eq_outside_iff, changeIlluminant]
  cases chosenWeights m.parts ill with
  | error e => simp
  | ok weights =>
      dsimp only
      cases findNeutrals solver ⟨m.parts, weights⟩ m.tuning <;> simp

theorem changeIlluminant_parts (ill : Option Illuminant) :
    (m.changeIlluminant solver ill).2.parts = m.parts := by
  cases call : m.changeIlluminant solver ill with
  | mk result m' =>
      cases result with
      | ok u => exact (setIlluminant_eq_ok (changeIlluminant_ok call)).2.1
      | error e => exact congrArg (fun m => m.parts) (changeIlluminant_error call)

theorem answer_parts (query : Query α) : (m.answer solver query).2.parts = m.parts := by
  cases query with
  | setIlluminant ill => exact changeIlluminant_parts ill
  | lookup dev => rfl
  | lookupSpectrum dev => rfl

section Valid

variable (valid : m.parts.Valid)
include valid

theorem answer?_eq {query : Query α} (apart : ¬query.MeetsSingleBand m.parts) :
    m.answer? solver query = some (m.answer solver query) := by
  cases query with
  | setIlluminant ill =>
      have inside := (changeIlluminant_eq_outside_iff solver).not.mpr apart
      rw [answer?, changeIlluminant?_eq valid, answer]
      split
      · rename_i outside
        exact absurd (congrArg Prod.fst outside) inside
      · rename_i change
        rw [change]
  | lookup dev => simp [answer?, answer, Response.lookup?_eq dev valid]
  | lookupSpectrum dev => simp [answer?, answer, Response.lookupSpectrum?_eq dev valid]

theorem answer?_eq_none {query : Query α} (meets : query.MeetsSingleBand m.parts) :
    m.answer? solver query = none := by
  obtain ⟨ill, rfl⟩ := meets.1
  have outside := (changeIlluminant_eq_outside_iff solver).mpr meets
  cases change : m.changeIlluminant solver (some ill) with
  | mk result m' =>
      rw [change] at outside
      obtain rfl : result = .error .outside := outside
      simp only [answer?, changeIlluminant?_eq valid, change]

theorem answerAll?_eq {queries : List (Query α)}
    (apart : ∀ query ∈ queries, ¬query.MeetsSingleBand m.parts) :
    m.answerAll? solver queries = some (m.answerAll solver queries) := by
  induction queries generalizing m with
  | nil => rfl
  | cons query queries ih =>
      obtain ⟨first, others⟩ := List.forall_mem_cons.mp apart
      have same : (m.answer solver query).2.parts = m.parts := answer_parts query
      rw [answerAll?, answer?_eq valid first, Option.bind_some, ih (same ▸ valid) (same ▸ others),
        answerAll]
      rfl

/-- A light source for a single band ends the queries, whatever they were before. -/
theorem answerAll?_eq_none (solver : Solver α) {queries : List (Query α)}
    (meets : ∃ query ∈ queries, query.MeetsSingleBand m.parts) :
    m.answerAll? solver queries = none := by
  induction queries generalizing m with
  | nil => simp at meets
  | cons query queries ih =>
      rw [answerAll?]
      by_cases here : query.MeetsSingleBand m.parts
      · rw [answer?_eq_none valid here, Option.bind_none]
      · have same : (m.answer solver query).2.parts = m.parts := answer_parts query
        have later : ∃ query ∈ queries, query.MeetsSingleBand m.parts := by simpa [here] using meets
        rw [answer?_eq valid here, Option.bind_some, ih (same ▸ valid) (same ▸ later),
          Option.map_none]

end Valid

/-- Queries of a model that was built never leave a table, in whatever order they are made and with
device values of any number, unless one of them puts a single spectral band under a light source.
Neither do lookups under any light source, and between two bands or more a value has a band on
either side. -/
theorem queries_checked_iff {tuning : Tuning α}
    (build : Model.build solver parts tuning = .ok built) :
    (∀ queries, built.answerAll? solver queries = some (built.answerAll solver queries) ↔
      ∀ query ∈ queries, ¬query.MeetsSingleBand parts) ∧
    (∀ weights dev, (⟨parts, weights⟩ : Response α).lookup? dev =
      some ((⟨parts, weights⟩ : Response α).lookup dev)) ∧
    ∀ s, parts.spectral = some s → 2 ≤ s.bands → ∀ (spectrum : Array α) nm,
      spectrum.size = s.bands → (s.locate nm).1 + 1 < spectrum.size := by
  obtain ⟨valid, response, -, -⟩ := of_build build
  have same : built.parts = parts := congrArg Response.parts response
  refine ⟨fun queries => ⟨fun inside query mem meets => ?_, fun apart => ?_⟩,
    fun weights dev => Response.lookup?_eq dev valid, fun s _ two spectrum nm size => ?_⟩
  · have ends := answerAll?_eq_none (same ▸ valid) solver
      ⟨query, mem, same.symm ▸ meets⟩
    rw [ends] at inside
    cases inside
  · exact answerAll?_eq (same ▸ valid) (same ▸ apart)
  · rw [size]
    exact locate_lt two nm

end Queries

end Model

theorem queries_checked_greyModel :
    (greyModel : Model ℝ).answerAll? stillSolver
        [.setIlluminant (some .d50), .lookup #[2, 3], .lookupSpectrum #[]] =
      some ((greyModel : Model ℝ).answerAll stillSolver
        [.setIlluminant (some .d50), .lookup #[2, 3], .lookupSpectrum #[]]) ∧
    ∃ sheet : Model ℝ, Model.build limitSolver inkSheet darkBlack = .ok sheet ∧
      sheet.answerAll? limitSolver [.setIlluminant none, .setIlluminant (some .a), .lookup #[]] =
        some (sheet.answerAll limitSolver
          [.setIlluminant none, .setIlluminant (some .a), .lookup #[]]) := by
  constructor
  · have build : Model.build stillSolver _ _ = .ok greyModel := Model.build_eq_ok greyLamp_valid rfl
    refine ((Model.queries_checked_iff build).1 _).mpr ?_
    rintro query - ⟨-, s, spectral, single⟩
    cases spectral
    exact absurd single (by decide)
  · obtain ⟨sheet, build⟩ := inkSheet_build
    refine ⟨sheet, build, ((Model.queries_checked_iff build).1 _).mpr ?_⟩
    rintro query - ⟨-, s, spectral, -⟩
    cases spectral

/-- A grey display with a single spectral band. -/
def singleBandLamp {α : Type} [Scalar α] : Parts α where
  inks := (greyLamp : Parts α).inks
  limit := none
  order := 1
  shaped := false
  spectral := some ⟨1, 500, 600, 1⟩
  instrument := none
  created := none
  bands := #[⟨#[0], #[], #[0, 1]⟩, ⟨#[0], #[], #[0, 1]⟩, ⟨#[0], #[], #[0, 1]⟩, ⟨#[0], #[], #[0, 1]⟩]

/-- The display is accepted, and putting it under a light source reads a band that it has not. -/
theorem singleBandLamp_unchecked :
    ∃ m, Machine.ofParts singleBandLamp = .ok m ∧
      m.answer? Machine.solver (.setIlluminant (some .d50)) = none ∧
      (m.changeIlluminant Machine.solver (some .d50)).1 = .error .outside := by
  have valid : (singleBandLamp : Parts Float).Valid := {
    inks := by decide
    order := by decide
    spectral := by decide
    bandCount := rfl
    bands := by
      intro b mem
      simp only [singleBandLamp, List.mem_toArray, List.mem_cons, List.not_mem_nil, or_false] at mem
      rcases mem with rfl | rfl | rfl | rfl <;> exact ⟨rfl, rfl, rfl⟩
    limit := nofun }
  have found : findNeutrals Machine.solver ⟨singleBandLamp, none⟩ .default =
      .ok (displayNeutrals ⟨singleBandLamp, none⟩) := rfl
  have meets : (Model.Query.setIlluminant (some .d50)).MeetsSingleBand
      (singleBandLamp : Parts Float) := ⟨⟨.d50, rfl⟩, _, rfl, rfl⟩
  exact ⟨_, Model.build_eq_ok valid found, Model.answer?_eq_none valid meets,
    (Model.changeIlluminant_eq_outside_iff Machine.solver).mpr meets⟩

end InkModel
