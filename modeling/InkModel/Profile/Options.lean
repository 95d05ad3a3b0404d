import InkModel.Color.Spectrum

/-! # Choices of a fit

The quality levels, the constants of the fitting pipeline, and the options of
one fit.
-/

namespace InkModel

open Scalar

inductive Quality where
  | low
  | medium
  | high
  | ultra
  deriving Repr, DecidableEq

namespace Quality

/-- All levels, lowest first. -/
def all : List Quality := [low, medium, high, ultra]

def level : Quality → Nat
  | low => 0
  | medium => 1
  | high => 2
  | ultra => 3

def ofLevel? (n : Nat) : Option Quality := all[n]?

def transferOrder : Quality → Nat
  | low => 4
  | medium => 6
  | high => 8
  | ultra => 12

def passes : Quality → Nat
  | low => 3
  | medium => 5
  | high => 8
  | ultra => 10

def name : Quality → String
  | low => "low"
  | medium => "medium"
  | high => "high"
  | ultra => "ultra"

/-- The texts that stand for a level: its number, its name, and its initial. -/
def spellings (q : Quality) : List String :=
  [q.level.repr, q.name, String.ofList (q.name.toList.take 1)]

/-- The level of a text, in any case. -/
def ofName? (s : String) : Option Quality :=
  all.find? fun q => q.spellings.contains (Text.lowered s)

/-- What is said of a text that stands for no level. -/
def unknownMessage (s : String) : String := "unknown quality: " ++ s

end Quality

structure Tuning (α : Type) where
  /-- Decay of the density for each further ink when overprints are estimated. -/
  trapDecay : α
  /-- Weight of the mean squared shape value. -/
  shapeWeight : α
  /-- Weight that holds primaries near their first values. -/
  primaryWeight : α
  /-- Weight of squared negative primaries. -/
  negativeWeight : α
  /-- Weight of the harmonics 0 and 1. -/
  lowHarmonicWeight : α
  /-- The harmonic at which the weight reaches `breakWeight`. -/
  breakHarmonic : Nat
  breakWeight : α
  /-- Increase of the weight for each harmonic beyond the break. -/
  weightIncrease : α
  /-- First transfer coefficient at the start: a typical dot gain. -/
  initialTransfer : α
  /-- Squared device distance within which a sample replaces an estimate. -/
  nearSquared : α
  firstTolerance : α
  /-- Factor of the tolerance from pass to pass. -/
  toleranceFactor : α
  maxIterations : Nat
  /-- Random starts of the search for the black point. -/
  blackRestarts : Nat
  blackSeed : Nat
  /-- Weight of the squared distance from the neutral line. -/
  neutralWeight : α
  /-- Weight of device values outside their range or limit. -/
  rangeWeight : α
  /-- The objective above which no black point is accepted. -/
  blackFail : α
  deriving Repr

namespace Tuning

variable {α : Type} [Scalar α]

def default : Tuning α where
  trapDecay := 0.90
  shapeWeight := 10
  primaryWeight := 0.008
  negativeWeight := 5000
  lowHarmonicWeight := 0.01
  breakHarmonic := 3
  breakWeight := 0.1
  weightIncrease := 0.1
  initialTransfer := -1.6
  nearSquared := 0.02
  firstTolerance := 0.1
  toleranceFactor := 0.2
  maxIterations := 200
  blackRestarts := 20
  blackSeed := 0x4d505042
  neutralWeight := 10
  rangeWeight := 200
  blackFail := 1000

/-- Weight of a transfer harmonic: flat for the first two, then rising to the
break, then by the increase for each further harmonic. -/
@[specialize] def harmonicWeight (t : Tuning α) (harmonic : Nat) : α :=
  let f : α := Scalar.ofNat harmonic
  let brk : α := Scalar.ofNat (max t.breakHarmonic 2)
  if f ≤ 1 then t.lowHarmonicWeight
  else if f ≤ brk then
    let x := (f - 1) / (brk - 1)
    t.lowHarmonicWeight + x * (t.breakWeight - t.lowHarmonicWeight)
  else t.breakWeight + (f - brk) * t.weightIncrease

end Tuning

structure FitOptions (α : Type) where
  /-- Whether the error is evaluated after every pass and a report made. -/
  verbose : Bool
  quality : Quality
  /-- Ink limit as a sum of fractions. -/
  limit : Option α
  shaped : Bool
  spectral : Option (SpectralShape α)
  instrument : Option String
  /-- The share of its error that a pass must gain for a band to go on. -/
  earlyExit : Option α
  tuning : Tuning α

end InkModel
