import InkModel.Color.Error
import InkModel.Color.Observer
import InkModel.Failure
import InkModel.Text.Blank

/-! # Spectra

Evenly spaced band layouts, interpolation between bands, and the colour of a
reflectance spectrum under an illuminant.
-/

namespace InkModel

open Scalar

structure SpectralShape (α : Type) where
  bands : Nat
  /-- Wavelength of the first band in nm. -/
  startNm : α
  /-- Wavelength of the last band in nm. -/
  endNm : α
  norm : α
  deriving Repr, DecidableEq

namespace SpectralShape

variable {α : Type} [Scalar α]

/-- A layout of at least two ascending bands with a positive norm. -/
def make (bands : Nat) (startNm endNm norm : α) : Except (ColorError α) (SpectralShape α) :=
  if bands < 2 then .error (.tooFewBands bands)
  else if startNm < endNm then
    if 0 < norm then .ok ⟨bands, startNm, endNm, norm⟩ else .error (.badNorm norm)
  else .error (.emptyRange startNm endNm)

/-- Index of the last band, as a number. -/
@[inline] def lastIndex (s : SpectralShape α) : α := Scalar.ofNat (s.bands - 1)

/-- Distance of neighbouring bands in nm. -/
@[inline] def step (s : SpectralShape α) : α := (s.endNm - s.startNm) / s.lastIndex

/-- Wavelength of band `i` in nm. -/
@[inline] def wavelength (s : SpectralShape α) (i : Nat) : α :=
  s.startNm + s.step * Scalar.ofNat i

/-- Index of the band that is nearest to a wavelength. -/
@[specialize] def indexNearest (s : SpectralShape α) (nm : α) : Nat :=
  (Scalar.trunc (confine (Scalar.round ((nm - s.startNm) / s.step)) 0 s.lastIndex)).toNat

/-- Where a wavelength lies: the band below it and the fraction of the way to
the next. Beyond the ends it lies on the end band. -/
@[specialize] def locate (s : SpectralShape α) (nm : α) : Nat × α :=
  let pos := confine ((nm - s.startNm) / s.step) 0 s.lastIndex
  let i := min (Scalar.trunc (Scalar.floor pos)).toNat (s.bands - 2)
  (i, pos - Scalar.ofNat i)

/-- The value of a spectrum at a wavelength, interpolated between bands. There
is none when no two bands enclose it. -/
@[specialize] def sample? (s : SpectralShape α) (spectrum : Array α) (nm : α) : Option α :=
  let (i, t) := s.locate nm
  match spectrum[i]?, spectrum[i + 1]? with
  | some a, some b => some (lerp a b t)
  | _, _ => none

/-- Adds the reflectance at each table wavelength, weighted, onto `acc`. The
`i`-th table wavelength comes first. -/
@[specialize] def integrateFrom (s : SpectralShape α) (spectrum : Array α) (i : Nat)
    (acc : Xyz α) : List (Xyz α) → Option (Xyz α)
  | [] => some acc
  | w :: ws =>
    match s.sample? spectrum (Scalar.ofNat (tableStart + tableStep * i)) with
    | none => none
    | some v =>
      let r := v / s.norm
      integrateFrom s spectrum (i + 1) ⟨acc.x + r * w.x, acc.y + r * w.y, acc.z + r * w.z⟩ ws

/-- The colour of a spectrum under a light source. -/
@[specialize] def convert (s : SpectralShape α) (ill : Illuminant) (spectrum : Array α) :
    Except (Failure (ColorError α)) (Xyz α) :=
  if spectrum.size ≠ s.bands then .error (.refused (.spectrumLength s.bands spectrum.size))
  else
    match s.integrateFrom spectrum 0 ⟨0, 0, 0⟩ ill.weights with
    | some c => .ok c
    | none => .error .outside

end SpectralShape

/-- Reads the name of a light source, in any case. -/
def Illuminant.ofName {α : Type} (s : String) : Except (ColorError α) Illuminant :=
  match Illuminant.ofName? (Text.raised s) with
  | some ill => .ok ill
  | none => .error (.unknownIlluminant s)

end InkModel
