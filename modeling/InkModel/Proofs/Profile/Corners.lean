import InkModel.Proofs.Device.Corners
import InkModel.Proofs.Profile.Legal
import InkModel.Proofs.Profile.RoundTrip

/-! # Colours at the corners of a device

Without a light source of its own a model gives the colours of its primaries at
the corners of the device. So white and the black of a display are primaries.
-/

namespace InkModel

namespace Parts

/-- The colour of a combination, as the bands X, Y and Z have it. -/
def primaryColor? {α : Type} (p : Parts α) (comb : ℕ) : Option (Xyz α) := do
  let x ← p.bands[0]? >>= (·.primaries[comb]?)
  let y ← p.bands[1]? >>= (·.primaries[comb]?)
  let z ← p.bands[2]? >>= (·.primaries[comb]?)
  return ⟨x, y, z⟩

variable {p : Parts ℝ}

theorem primary?_corner (valid : p.Valid) {j comb : ℕ} (hj : j < xyzBands)
    (hc : comb < p.layout.combinations) {dev : Array ℝ} (corner : IsCorner p.layout comb dev) :
    (p.bands[j]? >>= (·.primaries[comb]?)) = some ((Response.mk p none).bandValue j dev) := by
  have inside : j < p.bands.size := valid.bandCount ▸ Nat.lt_add_right _ hj
  have fits : p.bands[j].Fits p.layout := valid.bands _ (Array.getElem_mem inside)
  rw [Response.bandValue, Array.getElem?_eq_getElem inside]
  exact (gradientOver_corner fits hc corner (zero_fits p.layout)).2

theorem primaryColor?_corner (valid : p.Valid) {comb : ℕ} (hc : comb < p.layout.combinations)
    {dev : Array ℝ} (corner : IsCorner p.layout comb dev) :
    p.primaryColor? comb = some ((Response.mk p none).lookup dev) := by
  rw [primaryColor?, primary?_corner valid (by decide) hc corner,
    primary?_corner valid (by decide) hc corner, primary?_corner valid (by decide) hc corner]
  rfl

end Parts

theorem isCorner_off (l : Layout) : IsCorner l 0 (Array.replicate l.channels 0) := by
  intro m hm
  simp [cornerValue, hm]

theorem isCorner_full (l : Layout) :
    IsCorner l (l.combinations - 1) (Array.replicate l.channels 1) := by
  intro m hm
  simp [cornerValue, hm, Layout.combinations]

/-- Under its own colours, the white of a printer, and the white and the black of a
display, are primaries. -/
theorem neutrals_primaries {solver : Solver ℝ} {parts : Parts ℝ} {tuning : Tuning ℝ}
    {built m : Model ℝ} (build : Model.build solver parts tuning = .ok built)
    (reached : Model.Reached solver built m) (own : m.weights = none) :
    (parts.inks.additive = false → parts.primaryColor? 0 = some m.neutrals.white.xyz) ∧
      (parts.inks.additive = true →
        parts.primaryColor? (parts.layout.combinations - 1) = some m.neutrals.white.xyz ∧
          parts.primaryColor? 0 = some m.neutrals.black.xyz) := by
  obtain ⟨same, valid⟩ := reached.parts_eq build
  have legal : AreLegal m.toResponse m.neutrals := reached.legal build
  have response : m.toResponse = ⟨parts, none⟩ := by
    rw [← same, ← own]
  rw [response] at legal
  have combinations : 0 < parts.layout.combinations := Nat.two_pow_pos _
  have white := legal.white_eq
  constructor
  · intro printer
    rw [printer] at white
    rw [legal.white.color, white]
    exact Parts.primaryColor?_corner valid combinations (isCorner_off parts.layout)
  · intro display
    rw [display] at white
    rw [legal.white.color, white, legal.black.color, legal.displayBlack display]
    exact ⟨Parts.primaryColor?_corner valid (Nat.sub_lt combinations Nat.one_pos)
      (isCorner_full parts.layout),
      Parts.primaryColor?_corner valid combinations (isCorner_off parts.layout)⟩

/-- The band value is a convex combination of the primaries, with the weights that a
gradient has for them, and a primary itself at every corner. -/
theorem evaluate_convex_exact_at_corners :
    (∀ (l : Layout) (b : Band ℝ), b.Fits l →
      (∀ (dev : Array ℝ) (old : Gradient ℝ), old.Fits l →
        IsConvexCombination (gradientOver l b dev old).primaries b.primaries (evaluate l b dev)) ∧
      (∀ dev : Array ℝ, ∃ lo ∈ b.primaries, ∃ hi ∈ b.primaries,
        (∀ x ∈ b.primaries, lo ≤ x ∧ x ≤ hi) ∧ lo ≤ evaluate l b dev ∧ evaluate l b dev ≤ hi) ∧
      ∀ comb < l.combinations, ∀ dev : Array ℝ, IsCorner l comb dev →
        ∀ old : Gradient ℝ, old.Fits l →
          (gradientOver l b dev old).primaries[comb]? = some 1 ∧
            b.primaries[comb]? = some (evaluate l b dev)) ∧
    ∀ (solver : Solver ℝ) (parts : Parts ℝ) (tuning : Tuning ℝ) (built m : Model ℝ),
      Model.build solver parts tuning = .ok built → Model.Reached solver built m →
      m.weights = none →
        (parts.inks.additive = false → parts.primaryColor? 0 = some m.neutrals.white.xyz) ∧
        (parts.inks.additive = true →
          parts.primaryColor? (parts.layout.combinations - 1) = some m.neutrals.white.xyz ∧
            parts.primaryColor? 0 = some m.neutrals.black.xyz) := by
  refine ⟨fun l b fits => ⟨?_, ?_, ?_⟩, fun _ _ _ _ _ => neutrals_primaries⟩
  · intro dev old sizes
    exact gradientOver_convex fits dev sizes
  · intro dev
    exact (gradientOver_convex fits dev (zero_fits l)).between
  · intro comb hc dev corner old sizes
    exact gradientOver_corner fits hc corner sizes

/-- The first channel of the band alone at full, and the white of the grey display. -/
theorem evaluate_convex_exact_at_corners_greyModel :
    IsConvexCombination (gradientOver ⟨2, 2, true⟩ twoChannelBand #[1, 0] usedTables).primaries
        #[0, 216 / 24389, 1, -1] (evaluate ⟨2, 2, true⟩ twoChannelBand #[1, 0]) ∧
      evaluate ⟨2, 2, true⟩ twoChannelBand #[1, 0] = 216 / 24389 ∧
      (greyModel : Model ℝ).neutrals.white.xyz = ⟨96, 100, 82⟩ := by
  obtain ⟨band, model⟩ := evaluate_convex_exact_at_corners
  obtain ⟨convex, -, atCorner⟩ := band ⟨2, 2, true⟩ twoChannelBand ⟨rfl, rfl, rfl⟩
  have corner : IsCorner ⟨2, 2, true⟩ 1 #[1, 0] := by
    intro m hm
    have channel : m < 2 := hm
    interval_cases m <;> simp [cornerValue, Nat.testBit]
  have white := model stillSolver greyLamp _ greyModel greyModel
    (Model.build_eq_ok greyLamp_valid rfl) .built rfl
  refine ⟨convex #[1, 0] usedTables ⟨rfl, rfl, rfl, rfl⟩, ?_, ?_⟩
  · have primary := (atCorner 1 (by decide) #[1, 0] corner usedTables ⟨rfl, rfl, rfl, rfl⟩).2
    exact (Option.some.inj primary).symm
  · have primary := (white.2 rfl).1
    exact (Option.some.inj primary).symm

end InkModel
