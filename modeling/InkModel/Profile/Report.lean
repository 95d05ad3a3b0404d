import InkModel.Profile.Model

/-! # Quality of a model

The colour differences between the predictions of a model and measured
samples.
-/

namespace InkModel

open Scalar

structure Sample (α : Type) where
  dev : Array α
  xyz : Xyz α
  spectrum : Option (Array α)
  weight : α
  deriving Repr, DecidableEq

structure FitReport (α : Type) where
  count : Nat
  /-- Mean difference. -/
  mean : α
  /-- Root of the mean squared difference. -/
  rms : α
  max : α
  deriving Repr, DecidableEq

variable {α : Type} [Scalar α]

@[specialize] def FitReport.ofDifferences (des : List α) : FitReport α :=
  let n : α := Scalar.ofNat des.length
  { count := des.length
    mean := Scalar.sum des / n
    rms := Scalar.sqrt (Scalar.sum (des.map fun d => d * d) / n)
    max := des.foldl Scalar.max 0 }

/-- Difference between the prediction for a sample and its measurement. -/
@[specialize] def Model.difference (m : Model α) (s : Sample α) : α :=
  (m.lookupLab s.dev).distance s.xyz.toLab

@[specialize] def Model.fitReport (m : Model α) (samples : List (Sample α)) :
    Except (ModelError α) (FitReport α) :=
  if samples.isEmpty then .error .noSamples
  else .ok (.ofDifferences (samples.map m.difference))

def FitReport.render [Numeral α] (r : FitReport α) : String :=
  r.count.repr ++ " samples, mean dE " ++ Numeral.places 3 r.mean ++ ", rms dE " ++
    Numeral.places 3 r.rms ++ ", max dE " ++ Numeral.places 3 r.max

end InkModel
