import InkModel.Profile.Model

/-! # What the white and black points depend on

A limit that does not constrain the device may be left out, and of the constants
only those of the black point search count.
-/

namespace InkModel

variable {α : Type} [Scalar α]

/-- Whether the black point search has the same settings. -/
structure Tuning.SameBlack (t u : Tuning α) : Prop where
  restarts : t.blackRestarts = u.blackRestarts
  seed : t.blackSeed = u.blackSeed
  neutral : t.neutralWeight = u.neutralWeight
  range : t.rangeWeight = u.rangeWeight
  fail : t.blackFail = u.blackFail

/-- A limit that has been found effective stays so. -/
theorem effectiveLimit_effectiveLimit (limit : Option α) (n : Nat) :
    effectiveLimit (effectiveLimit limit n) n = effectiveLimit limit n := by
  unfold effectiveLimit
  rw [Option.filter_filter]
  simp

theorem effectiveLimit_eq_some {limit : Option α} {n : Nat} {l : α}
    (h : effectiveLimit limit n = some l) : limit = some l := by
  rw [effectiveLimit, Option.filter_eq_some_iff] at h
  exact h.1

section Limit

variable {p : Parts α} {limit : Option α} {weights : Option (List (Xyz α))}

theorem Response.lookup_limit :
    (Response.mk { p with limit } weights).lookup = (Response.mk p weights).lookup := rfl

variable (same : effectiveLimit limit p.inks.count = effectiveLimit p.limit p.inks.count)
include same

theorem Response.limit_eq :
    (Response.mk { p with limit } weights).limit = (Response.mk p weights).limit := same

theorem inkBlackDev_limit :
    inkBlackDev ⟨{ p with limit }, weights⟩ = inkBlackDev ⟨p, weights⟩ := by
  unfold inkBlackDev
  rw [Response.limit_eq same]
  rfl

theorem neutralTarget_limit :
    neutralTarget ⟨{ p with limit }, weights⟩ = neutralTarget ⟨p, weights⟩ := by
  unfold neutralTarget
  rw [inkBlackDev_limit same, Response.limit_eq same]
  rfl

theorem blackObjective_limit {t u : Tuning α} (settings : t.SameBlack u) :
    blackObjective ⟨{ p with limit }, weights⟩ t = blackObjective ⟨p, weights⟩ u := by
  unfold blackObjective blackCost
  rw [Response.limit_eq same, settings.neutral, settings.range]
  rfl

theorem findNeutrals_limit (solver : Solver α) {t u : Tuning α} (settings : t.SameBlack u) :
    findNeutrals solver ⟨{ p with limit }, weights⟩ t = findNeutrals solver ⟨p, weights⟩ u := by
  have starts : blackStarts solver t = blackStarts solver u := by
    funext n
    rw [blackStarts, blackStarts, settings.restarts, settings.seed]
  unfold findNeutrals printerNeutrals
  rw [inkBlackDev_limit same, neutralTarget_limit same, Response.limit_eq same,
    blackObjective_limit same settings, starts, settings.fail]
  rfl

end Limit

end InkModel
