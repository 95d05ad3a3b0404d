import InkModel.Profile.Neutral

/-! # Models

A model is built from checked parameters, with its white and black points. Its
lookups can be put under another light source; then these points are found
anew, and a failure leaves the model as it was.
-/

namespace InkModel

open Scalar

inductive DeviceClass where
  | output
  | display
  deriving Repr, DecidableEq

def DeviceClass.name : DeviceClass → String
  | output => "OUTPUT"
  | display => "DISPLAY"

def InkSet.deviceClass (s : InkSet) : DeviceClass := if s.additive then .display else .output

structure Model (α : Type) extends Response α where
  tuning : Tuning α
  neutrals : Neutrals α

namespace Model

variable {α : Type} [Scalar α]

@[specialize] def build (solver : Solver α) (parts : Parts α) (tuning : Tuning α) :
    Except (ModelError α) (Model α) := do
  parts.check
  let response : Response α := ⟨parts, none⟩
  let neutrals ← findNeutrals solver response tuning
  return { response with tuning, neutrals }

@[specialize] def ofParts (solver : Solver α) (parts : Parts α) :
    Except (ModelError α) (Model α) :=
  build solver parts .default

def deviceClass (m : Model α) : DeviceClass := m.parts.inks.deviceClass

def band (m : Model α) (j : Nat) : Except (ModelError α) (Band α) :=
  match m.parts.bands[j]? with
  | some b => .ok b
  | none => .error (.invalidArgument (.noBand j m.parts.bands.size))

@[specialize] def valueOfBand (m : Model α) (j : Nat) (dev : Array α) :
    Except (ModelError α) α :=
  (m.band j).map fun b => evaluate m.parts.layout b dev

/-- The value of a band with its slope in every channel. -/
@[specialize] def slopesOfBand (m : Model α) (j : Nat) (dev : Array α) :
    Except (ModelError α) (α × Array α) :=
  (m.band j).map fun b =>
    let g := gradient m.parts.layout b dev
    (g.value, g.dev)

/-- The contributions of the spectral bands under a light source, if one is chosen. -/
def chosenWeights (p : Parts α) (ill : Option Illuminant) :
    Except (Failure (ModelError α)) (Option (List (Xyz α))) :=
  match ill, p.spectral with
  | none, _ => .ok none
  | some _, none => .error (.refused .notSpectral)
  | some i, some s => ((bandWeights i s).map some).mapError (Failure.map .color)

/-- Puts lookups under a light source, or back to the colorimetric bands. -/
@[specialize] def setIlluminant (solver : Solver α) (m : Model α) (ill : Option Illuminant) :
    Except (Failure (ModelError α)) (Model α) := do
  let weights ← match ill, m.parts.spectral with
    | none, _ => pure none
    | some _, none => throw (.refused .notSpectral)
    | some i, some s => ((bandWeights i s).map some).mapError (Failure.map .color)
  let response : Response α := { m.toResponse with weights }
  let neutrals ← (findNeutrals solver response m.tuning).mapError .refused
  return { m with toResponse := response, neutrals }

/-- Puts the lookups of a model in place under a light source: what the call answers, and the
model behind it. The search for the points looks up under the new light source, so the weights
are there before the points; when the search fails the former weights come back. -/
@[specialize] def changeIlluminant (solver : Solver α) (m : Model α) (ill : Option Illuminant) :
    Except (Failure (ModelError α)) Unit × Model α :=
  match chosenWeights m.parts ill with
  | .error e => (.error e, m)
  | .ok weights =>
    let installed : Model α := { m with weights }
    match findNeutrals solver installed.toResponse installed.tuning with
    | .ok neutrals => (.ok (), { installed with neutrals })
    | .error e => (.error (.refused e), { installed with weights := m.weights })

end Model

end InkModel
