import InkModel.Profile.Report

/-! # Points of a fit

Samples are checked and brought into the form that the objectives need: device
values within `[0, 1]`, and the target of every band with its lightness.
-/

namespace InkModel

open Scalar

structure FitPoint (α : Type) where
  /-- Device values within `[0, 1]`. -/
  dev : Array α
  target : Array α
  lightTarget : Array α
  weight : α

variable {α : Type} [Scalar α]

/-- The targets of a sample: its colour, then its spectrum of `spectralBands`
values if there are any. -/
def Sample.targets (s : Sample α) (spectralBands : Nat) : Except (SampleFault α) (Array α) :=
  let xyz := #[s.xyz.x, s.xyz.y, s.xyz.z]
  if spectralBands = 0 then .ok xyz
  else
    match s.spectrum with
    | none => .error .noSpectrum
    | some values =>
      if values.size = spectralBands then .ok (xyz ++ values)
      else .error (.spectrumCount values.size spectralBands)

/-- Checks a sample of `n` device values and prepares it. -/
def Sample.prepare (s : Sample α) (n spectralBands : Nat) :
    Except (SampleFault α) (FitPoint α) :=
  if s.dev.size ≠ n then .error (.deviceCount s.dev.size n)
  else if !(s.dev.all Scalar.isFinite && s.xyz.toList.all Scalar.isFinite) then
    .error .nonFinite
  else if 0 ≤ s.weight then
    (s.targets spectralBands).map fun target =>
      { dev := s.dev.map saturate
        target
        lightTarget := target.map lightness
        weight := s.weight }
  else .error (.weight s.weight)

/-- Prepares samples, of which the first has the given index. -/
def preparePoints (n spectralBands index : Nat) :
    List (Sample α) → Except (ModelError α) (List (FitPoint α))
  | [] => .ok []
  | s :: rest =>
    match s.prepare n spectralBands with
    | .error fault => .error (.invalidSample index fault)
    | .ok p => (preparePoints n spectralBands (index + 1) rest).map (p :: ·)

/-- Prepares the samples of a fit, of which there must be one. -/
def fitPoints (n spectralBands : Nat) (samples : List (Sample α)) :
    Except (ModelError α) (List (FitPoint α)) :=
  if samples.isEmpty then .error .noSamples else preparePoints n spectralBands 0 samples

end InkModel
