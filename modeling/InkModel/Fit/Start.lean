import InkModel.Fit.Points
import InkModel.Profile.Options

/-! # Starting parameters of a fit

Transfer curves start at a typical dot gain, shapes at zero. Every primary
starts at the sample nearest to its corner; an overprint that no sample comes
near is estimated from the single inks, by adding light on displays and
decaying densities on printers.
-/

namespace InkModel

open Scalar

variable {α : Type} [Scalar α]

/-- Squared distance of device values from the corner `comb`. -/
@[specialize] def cornerDistance (comb : Nat) (dev : Array α) : α :=
  sumBelow dev.size fun m =>
    sq (dev.getD m 0 - (if comb.testBit m then 1 else 0))

/-- A point with its squared distance from a corner. -/
structure Nearest (α : Type) where
  point : FitPoint α
  /-- Its squared distance. -/
  distance : α

/-- The nearest point to a corner, the first of several, if there are points. -/
@[specialize] def nearestPoint (comb : Nat) (points : List (FitPoint α)) : Option (Nearest α) :=
  points.foldl (fun best p =>
    let d := cornerDistance comb p.dev
    match best with
    | none => some ⟨p, d⟩
    | some b => if d < b.distance then some ⟨p, d⟩ else best) none

@[inline] def densityFloor : α := 1e-6

/-- The channels at full in a combination of `n` channels. -/
def combChannels (n comb : Nat) : List Nat := (List.range n).filter comb.testBit

/-- Estimate of an overprint from the values of the substrate and of the single
inks in it. -/
@[specialize] def overprint (additive : Bool) (t : Tuning α) (base : α) (single : List α) : α :=
  if additive then base + Scalar.sum (single.map (· - base))
  else
    let paper := Scalar.max base densityFloor
    let density :=
      Scalar.sum (single.map fun v => -(Scalar.log (Scalar.max v densityFloor / paper)))
    paper * Scalar.exp (-density * Scalar.pow t.trapDecay (single.length - 1))

/-- The starting primary of a combination in band `j`. -/
@[specialize] def startPrimary (n : Nat) (additive : Bool) (t : Tuning α)
    (nearest : Array (Option (Nearest α))) (j comb : Nat) : α :=
  let measured (c : Nat) : α := match nearest.getD c none with
    | some near => near.point.target.getD j 0
    | none => 0
  let inks := combChannels n comb
  let isNear := match nearest.getD comb none with
    | some near => decide (near.distance < t.nearSquared)
    | none => false
  if inks.length < 2 || isNear then measured comb
  else overprint additive t (measured 0) (inks.map fun m => measured (1 <<< m))

/-- The starting transfer coefficients: only the first harmonic of each channel
is not zero. -/
def startTransfer (l : Layout) (t : Tuning α) : Array α :=
  (Array.range l.transferCount).map fun i => if i % l.order = 0 then t.initialTransfer else 0

@[specialize] def initialBands (l : Layout) (points : List (FitPoint α)) (additive : Bool)
    (t : Tuning α) : Array (Band α) :=
  let bandCount := match points with
    | p :: _ => p.target.size
    | [] => xyzBands
  let nearest := (Array.range l.combinations).map fun comb => nearestPoint comb points
  (Array.range bandCount).map fun j =>
    { Band.zero l with
      transfer := startTransfer l t
      primaries := (Array.range l.combinations).map
        (startPrimary l.channels additive t nearest j) }

end InkModel
