import InkModel.Profile.Parts
import InkModel.Proofs.Profile.Neutral
import InkModel.Proofs.Runs

/-! # Checked parameters

What the check of the parameters of a model asks for, as a proposition.
-/

namespace InkModel

theorem checkBands_eq_ok_iff {α : Type} {l : Layout} {index : Nat} {bands : List (Band α)} :
    checkBands l index bands = .ok () ↔ ∀ b ∈ bands, b.Fits l := by
  induction bands generalizing index with
  | nil => simp [checkBands]
  | cons b bands ih =>
      rw [checkBands, List.forall_mem_cons, ← Band.check_eq_ok_iff]
      cases b.check l index with
      | error e => simp
      | ok u => simpa using ih

namespace Parts

variable {α : Type}

/-- The number of spectral bands. -/
def spectralBands (p : Parts α) : Nat := (p.spectral.map (·.bands)).getD 0

theorem spectralCount_eq (p : Parts α) : (spectralCount p.spectral : Except (ModelError α) Nat) =
    if maxBands < p.spectralBands then .error (.tooManyBands p.spectralBands)
    else .ok p.spectralBands := by
  unfold spectralCount spectralBands
  cases p.spectral with
  | none => rfl
  | some s => rfl

variable [Scalar α]

/-- What a check asks for. -/
structure Valid (p : Parts α) : Prop where
  inks : p.inks.count ≤ maxInks
  order : 1 ≤ p.order ∧ p.order ≤ maxOrder
  spectral : p.spectralBands ≤ maxBands
  bandCount : p.bands.size = xyzBands + p.spectralBands
  bands : ∀ b ∈ p.bands, b.Fits p.layout
  limit : ∀ l, p.limit = some l → 0 < l

theorem check_eq_ok_iff {p : Parts α} : p.check = .ok () ↔ p.Valid := by
  unfold check checkInks
  simp only [spectralCount_eq, bind, Except.bind]
  constructor
  · intro h
    split at h
    · cases h
    rename_i inks
    split at inks
    · cases inks
    split at h
    · cases h
    rename_i order
    split at h
    · cases h
    rename_i count
    split at count
    · cases count
    cases count
    split at h
    · cases h
    split at h
    · cases h
    rename_i bands
    refine ⟨by omega, by omega, by omega, by omega, ?_, ?_⟩
    · intro b mem
      exact checkBands_eq_ok_iff.mp bands b (Array.mem_toList_iff.mpr mem)
    · intro l limit
      rw [limit] at h
      dsimp only at h
      split at h
      · assumption
      · cases h
  · intro h
    have bands : checkBands p.layout 0 p.bands.toList = .ok () :=
      checkBands_eq_ok_iff.mpr fun b mem => h.bands b (Array.mem_toList_iff.mp mem)
    rw [if_neg (by have := h.inks; omega)]
    dsimp only
    rw [if_neg (by have := h.order; omega), if_neg (by have := h.spectral; omega)]
    dsimp only
    rw [if_neg (by simpa using h.bandCount), bands]
    dsimp only
    cases limit : p.limit with
    | none => rfl
    | some l => exact if_pos (h.limit l limit)

/-- A limit that does not constrain the device may be left out. -/
theorem Valid.effective {p : Parts α} (h : p.Valid) :
    Valid { p with limit := effectiveLimit p.limit p.inks.count } :=
  ⟨h.inks, h.order, h.spectral, h.bandCount, h.bands,
    fun l limit => h.limit l (effectiveLimit_eq_some limit)⟩

end Parts

end InkModel
