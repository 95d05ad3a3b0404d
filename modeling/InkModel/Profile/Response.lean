import InkModel.Device.Forward
import InkModel.Profile.Parts

/-! # Colour response of a device

The colour and the spectrum that the parameters of a model give for device
values. Under a chosen light source the colour is taken from the modelled
spectrum instead of the colorimetric bands.
-/

namespace InkModel

open Scalar

/-- The parameters of a model with the light source of its lookups: the XYZ
contribution of every spectral band, when one is chosen. -/
structure Response (α : Type) where
  parts : Parts α
  /-- Contribution of each spectral band under the chosen light source. -/
  weights : Option (List (Xyz α))

/-- The contribution of each spectral band to the colour under a light source:
the colour of a spectrum that is 1 in that band and 0 elsewhere. -/
@[specialize] def bandWeights {α : Type} [Scalar α] (ill : Illuminant) (s : SpectralShape α) :
    Except (Failure (ColorError α)) (List (Xyz α)) :=
  let one : SpectralShape α := { s with norm := 1 }
  (List.range s.bands).mapM fun i =>
    one.convert ill ((Array.replicate s.bands 0).setIfInBounds i 1)

/-- Adds the contributions of spectral values onto `acc`. -/
@[specialize] def integrateBands {α : Type} [Scalar α] (acc : Xyz α) :
    List (Xyz α) → List α → Xyz α
  | w :: ws, r :: rs =>
    integrateBands ⟨acc.x + r * w.x, acc.y + r * w.y, acc.z + r * w.z⟩ ws rs
  | _, _ => acc

namespace Response

variable {α : Type} [Scalar α]

def channels (r : Response α) : Nat := r.parts.layout.channels

/-- The ink limit, when it constrains the device. -/
def limit (r : Response α) : Option α := effectiveLimit r.parts.limit r.channels

/-- The value of band `j`; a band that is not there is zero. -/
@[specialize] def bandValue (r : Response α) (j : Nat) (dev : Array α) : α :=
  match r.parts.bands[j]? with
  | some b => evaluate r.parts.layout b dev
  | none => 0

@[specialize] def spectrum (r : Response α) (dev : Array α) : List α :=
  (r.parts.bands.toList.drop xyzBands).map fun b => evaluate r.parts.layout b dev

@[specialize] def lookup (r : Response α) (dev : Array α) : Xyz α :=
  match r.weights with
  | some ws => integrateBands ⟨0, 0, 0⟩ ws (r.spectrum dev)
  | none => ⟨r.bandValue 0 dev, r.bandValue 1 dev, r.bandValue 2 dev⟩

@[specialize] def lookupLab (r : Response α) (dev : Array α) : Lab α := (r.lookup dev).toLab

@[specialize] def lookupSpectrum (r : Response α) (dev : Array α) :
    Except (ModelError α) (List α) :=
  match r.parts.spectral with
  | some _ => .ok (r.spectrum dev)
  | none => .error .notSpectral

end Response

end InkModel
