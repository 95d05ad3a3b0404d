import InkModel.Color.Spectrum
import InkModel.Proofs.Access

/-! # Accesses of the conversion of spectra

The values between bands, the powers of a light source and the colour of a spectrum, with their
differences and their reads checked. A conversion leaves its tables exactly where it says so.
-/

namespace InkModel

variable {α : Type} [Scalar α]

namespace Illuminant

variable (ill : Illuminant)

/-- The power at the `i`-th table wavelength. -/
def power? (i : ℕ) : Option α :=
  match ill with
  | d50 => daylightTable[i]?.map fun p => Scalar.ofScientific p true 3
  | a => some (incandescent (Scalar.ofNat (tableStart + tableStep * i)))
  | e => some 100

/-- The powers at the wavelengths of the observer. -/
def powers? : Option (List α) := (List.range observerTable.length).mapM ill.power?

theorem power?_eq {i : ℕ} (inside : i < observerTable.length) :
    (ill.power? i : Option α) = ill.powers[i]? := by
  cases ill with
  | d50 => simp [power?, powers]
  | a => simp [power?, powers, inside]
  | e => simp [power?, powers, inside]

theorem powers_length : (ill.powers : List α).length = observerTable.length := by
  cases ill <;> simp [powers, observerTable, daylightTable]

theorem powers?_eq : (ill.powers? : Option (List α)) = some ill.powers := by
  rw [powers?, ← powers_length (α := α) ill]
  exact mapM_range_eq_some fun i inside => ill.power?_eq (ill.powers_length (α := α) ▸ inside)

end Illuminant

namespace SpectralShape

variable (s : SpectralShape α) {spectrum : Array α}

def locate? (nm : α) : Option (ℕ × α) :=
  (s.bands.psub 1).bind fun last => (s.bands.psub 2).map fun below =>
    let step := (s.endNm - s.startNm) / Scalar.ofNat last
    let pos := confine ((nm - s.startNm) / step) 0 (Scalar.ofNat last)
    let i := min (Scalar.trunc (Scalar.floor pos)).toNat below
    (i, pos - Scalar.ofNat i)

/-- The value at a wavelength, from the band below it and the next. -/
def between? (spectrum : Array α) (nm : α) : Option α :=
  (s.locate? nm).bind fun (i, t) =>
    spectrum[i]?.bind fun a => spectrum[i + 1]?.map fun b => lerp a b t

def integrateFrom? (spectrum : Array α) (i : ℕ) (acc : Xyz α) : List (Xyz α) → Option (Xyz α)
  | [] => some acc
  | w :: ws =>
    (s.between? spectrum (Scalar.ofNat (tableStart + tableStep * i))).bind fun v =>
      let r := v / s.norm
      integrateFrom? spectrum (i + 1) ⟨acc.x + r * w.x, acc.y + r * w.y, acc.z + r * w.z⟩ ws

def convert? (ill : Illuminant) (spectrum : Array α) : Except (Failure (ColorError α)) (Xyz α) :=
  checked ill.powers? >>= fun powers =>
    if spectrum.size ≠ s.bands then .error (.refused (.spectrumLength s.bands spectrum.size))
    else checked (s.integrateFrom? spectrum 0 ⟨0, 0, 0⟩ (Illuminant.weightsOf powers))

variable {s}

theorem locate?_of_two (two : 2 ≤ s.bands) (nm : α) : s.locate? nm = some (s.locate nm) := by
  rw [locate?, Nat.psub_eq_sub (one_le_two.trans two), Nat.psub_eq_sub two]
  rfl

/-- With fewer than two bands there is nothing between them. -/
theorem sample?_of_few (few : s.bands < 2) (size : spectrum.size = s.bands) (nm : α) :
    s.sample? spectrum nm = none := by
  have next : spectrum[(s.locate nm).1 + 1]? = none := Array.getElem?_eq_none (by omega)
  simp only [sample?, next]
  cases spectrum[(s.locate nm).1]? <;> rfl

theorem between?_eq (size : spectrum.size = s.bands) (nm : α) :
    s.between? spectrum nm = s.sample? spectrum nm := by
  rcases Nat.lt_or_ge s.bands 2 with few | two
  · have missing : s.bands.psub 2 = none := Nat.psub_eq_none.mpr few
    rw [sample?_of_few few size, between?, locate?, missing]
    cases s.bands.psub 1 <;> rfl
  · rw [between?, locate?_of_two two, Option.bind_some, sample?]
    obtain ⟨i, t⟩ := s.locate nm
    dsimp only
    cases spectrum[i]? with
    | none => rfl
    | some a => cases spectrum[i + 1]? <;> rfl

theorem integrateFrom?_eq (size : spectrum.size = s.bands) (i : ℕ) (acc : Xyz α)
    (ws : List (Xyz α)) :
    s.integrateFrom? spectrum i acc ws = s.integrateFrom spectrum i acc ws := by
  induction ws generalizing i acc with
  | nil => rfl
  | cons w ws ih =>
      rw [integrateFrom?, integrateFrom, between?_eq size]
      cases s.sample? spectrum (Scalar.ofNat (tableStart + tableStep * i)) with
      | none => rfl
      | some v => exact ih _ _

theorem convert?_eq (ill : Illuminant) (spectrum : Array α) :
    s.convert? ill spectrum = s.convert ill spectrum := by
  rw [convert?, ill.powers?_eq, checked_some_bind, convert]
  by_cases size : spectrum.size = s.bands
  · rw [if_neg (not_not.mpr size), if_neg (not_not.mpr size), integrateFrom?_eq size]
    change checked (s.integrateFrom spectrum 0 _ ill.weights) = _
    cases s.integrateFrom spectrum 0 ⟨0, 0, 0⟩ ill.weights <;> rfl
  · rw [if_pos size, if_pos size]

end SpectralShape

end InkModel
