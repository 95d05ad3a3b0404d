import InkModel.Proofs.Profile.Parts
import InkModel.Proofs.Search.Powell

/-! # What a model can become

A model comes from valid parameters, and each of its states from the last by a
light source that is chosen or given up. The white and black points are always
those of the present light source.
-/

namespace InkModel

namespace Model

section Build

variable {α : Type} [Scalar α] {solver : Solver α} {parts : Parts α} {tuning : Tuning α}
variable {built m m' : Model α}

theorem build_eq_ok {neutrals : Neutrals α} (valid : parts.Valid)
    (found : findNeutrals solver ⟨parts, none⟩ tuning = .ok neutrals) :
    build solver parts tuning = .ok ⟨⟨parts, none⟩, tuning, neutrals⟩ := by
  rw [build, Parts.check_eq_ok_iff.mpr valid]
  simp only [bind, Except.bind, found]
  rfl

theorem of_build (h : build solver parts tuning = .ok m) :
    parts.Valid ∧ m.toResponse = ⟨parts, none⟩ ∧ m.tuning = tuning ∧
      findNeutrals solver ⟨parts, none⟩ tuning = .ok m.neutrals := by
  simp only [build, bind_eq_ok_iff] at h
  obtain ⟨_, check, neutrals, found, same⟩ := h
  cases same
  exact ⟨Parts.check_eq_ok_iff.mp check, rfl, rfl, found⟩

theorem setIlluminant_eq (m : Model α) (ill : Option Illuminant) :
    m.setIlluminant solver ill = (chosenWeights m.parts ill).bind fun weights =>
      ((findNeutrals solver ⟨m.parts, weights⟩ m.tuning).mapError Failure.refused).map
        fun neutrals => ⟨⟨m.parts, weights⟩, m.tuning, neutrals⟩ := by
  unfold setIlluminant chosenWeights
  cases ill with
  | none => rfl
  | some i =>
      cases m.parts.spectral with
      | none => rfl
      | some s => rfl

theorem setIlluminant_eq_ok {ill : Option Illuminant} (h : m.setIlluminant solver ill = .ok m') :
    chosenWeights m.parts ill = .ok m'.weights ∧ m'.parts = m.parts ∧ m'.tuning = m.tuning ∧
      findNeutrals solver m'.toResponse m'.tuning = .ok m'.neutrals := by
  rw [setIlluminant_eq] at h
  obtain ⟨weights, chosen, h⟩ := bind_eq_ok_iff.mp h
  obtain ⟨neutrals, found, rfl⟩ := map_eq_ok_iff.mp h
  exact ⟨chosen, rfl, rfl, mapError_eq_ok_iff.mp found⟩

/-- The models that a model becomes as its lookups are put under light sources. -/
inductive Reached (solver : Solver α) (built : Model α) : Model α → Prop
  | built : Reached solver built built
  | setIlluminant {m m' : Model α} (before : Reached solver built m) (ill : Option Illuminant)
      (set : m.setIlluminant solver ill = .ok m') : Reached solver built m'

theorem Reached.keeps (h : Reached solver built m) :
    m.parts = built.parts ∧ m.tuning = built.tuning := by
  induction h with
  | built => exact ⟨rfl, rfl⟩
  | setIlluminant before ill set ih =>
      obtain ⟨-, parts, tuning, -⟩ := setIlluminant_eq_ok set
      exact ⟨parts.trans ih.1, tuning.trans ih.2⟩

/-- The points of every state are those that a search in that state finds. -/
theorem Reached.findNeutrals_eq (build : build solver parts tuning = .ok built)
    (h : Reached solver built m) :
    findNeutrals solver m.toResponse m.tuning = .ok m.neutrals := by
  cases h with
  | built =>
      obtain ⟨-, response, sameTuning, found⟩ := of_build build
      rw [response, sameTuning, found]
  | setIlluminant before ill set => exact (setIlluminant_eq_ok set).2.2.2

theorem Reached.parts_eq (build : build solver parts tuning = .ok built)
    (h : Reached solver built m) : m.parts = parts ∧ parts.Valid := by
  obtain ⟨valid, response, -, -⟩ := of_build build
  exact ⟨h.keeps.1.trans (congrArg Response.parts response), valid⟩

end Build

end Model

/-- Searches that stay where they start. -/
noncomputable def stillSolver : Solver ℝ where
  interval _ _ _ := .ok none
  cycle pb start used := .ok ⟨start, pb.cost start, used, true⟩
  uniform _ count := Array.replicate count 0

theorem stillSolver_honest : IsHonest stillSolver.interval where
  answers _ _ _ := ⟨none, rfl⟩
  value_eq h := by cases h

end InkModel
