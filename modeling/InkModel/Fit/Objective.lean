import InkModel.Device.Forward
import InkModel.Fit.Points
import InkModel.Profile.Neutral

/-! # Objectives of a fit

A band is fitted in stages, each over one group of its parameters. A stage
minimizes the weighted mean squared error in lightness plus a penalty on its
own parameters.
-/

namespace InkModel

open Scalar

inductive Stage where
  | transfer
  | shape
  | primaries
  deriving Repr, DecidableEq

namespace Stage

variable {α : Type}

def params (s : Stage) (b : Band α) : Array α :=
  match s with
  | transfer => b.transfer
  | shape => b.shape
  | primaries => b.primaries

/-- A band with the parameters of the stage replaced. -/
def replace (s : Stage) (b : Band α) (params : Array α) : Band α :=
  match s with
  | transfer => { b with transfer := params }
  | shape => { b with shape := params }
  | primaries => { b with primaries := params }

/-- The slopes of a band value in the parameters of the stage. -/
def slopes (s : Stage) (g : Gradient α) : Array α :=
  match s with
  | transfer => g.transfer
  | shape => g.shape
  | primaries => g.primaries

@[inline] def radius [Scalar α] : Stage → α
  | transfer => 0.5
  | shape => 0.5
  | primaries => 0.05

end Stage

structure BandProblem (α : Type) where
  layout : Layout
  points : List (FitPoint α)
  band : Nat
  tuning : Tuning α
  anchors : Array α

structure Sloped (α : Type) where
  value : α
  slopes : Array α

namespace BandProblem

variable {α : Type} [Scalar α]

/-- Sum of the weights of the points; 1 when it is not positive. -/
@[specialize] def weightSum (pb : BandProblem α) : α :=
  let total := Scalar.sum (pb.points.map (·.weight))
  if 0 < total then total else 1

/-- Difference in lightness between a band value and the target of a point. -/
@[inline] def deviation (pb : BandProblem α) (p : FitPoint α) (value : α) : α :=
  lightness value - p.lightTarget.getD pb.band 0

/-- Weighted mean squared error in lightness. -/
@[specialize] def error (pb : BandProblem α) (b : Band α) : α :=
  pb.points.foldl (fun acc p =>
    acc + p.weight * sq (pb.deviation p (evaluate pb.layout b p.dev))) 0 / pb.weightSum

/-- Penalty on transfer coefficients, with its slopes: each harmonic has its
own weight. -/
@[specialize] def transferPenalty (pb : BandProblem α) (b : Band α) : Sloped α :=
  let weight (i : Nat) : α := pb.tuning.harmonicWeight (i % pb.layout.order)
  { value := sumBelow b.transfer.size fun i =>
      let c := b.transfer.getD i 0
      weight i * c * c
    slopes := b.transfer.mapIdx fun i c => 2 * weight i * c }

/-- Penalty on shape parameters, with its slopes. -/
@[specialize] def shapePenalty (pb : BandProblem α) (b : Band α) : Sloped α :=
  if b.shape.isEmpty then ⟨0, #[]⟩
  else
    let w := pb.tuning.shapeWeight / Scalar.ofNat b.shape.size
    { value := b.shape.foldl (fun acc s => acc + w * s * s) 0
      slopes := b.shape.map fun s => 2 * w * s }

/-- Penalty on primaries, with its slopes: they are held near their anchors and
away from negative values. -/
@[specialize] def primaryPenalty (pb : BandProblem α) (b : Band α) : Sloped α :=
  let t := pb.tuning
  let pairs := Array.zip b.primaries pb.anchors
  { value := pairs.foldl (fun acc (p, a) =>
      let d := lightness p - a
      let acc := acc + t.primaryWeight * d * d
      if p < 0 then acc + t.negativeWeight * p * p else acc) 0
    slopes := pairs.map fun (p, a) =>
      let d := lightness p - a
      let slope := 2 * t.primaryWeight * d * lightnessDeriv p
      if p < 0 then slope + 2 * t.negativeWeight * p else slope }

/-- Penalty of a stage on its own parameters, with its slopes. -/
@[specialize] def penalty (pb : BandProblem α) (stage : Stage) (b : Band α) : Sloped α :=
  match stage with
  | .transfer => pb.transferPenalty b
  | .shape => pb.shapePenalty b
  | .primaries => pb.primaryPenalty b

@[specialize] def objective (pb : BandProblem α) (stage : Stage) (b : Band α) : α :=
  pb.error b + (pb.penalty stage b).value

/-- Adds the error of a point and its slopes onto `acc`, whose gradient is
written over. -/
@[specialize] def addPoint (pb : BandProblem α) (stage : Stage) (b : Band α) (total : α)
    (acc : Sloped α × Gradient α) (p : FitPoint α) : Sloped α × Gradient α :=
  let (sum, old) := acc
  let g := gradientOver pb.layout b p.dev old
  let e := pb.deviation p g.value
  let k := 2 * p.weight * e * lightnessDeriv g.value / total
  (⟨sum.value + p.weight * e * e,
    Array.zipWith (fun o s => o + k * s) sum.slopes (stage.slopes g)⟩, g)

/-- What a stage minimizes, with its slopes in the parameters of the stage. The
slopes are written over `out`, the gradients of the points over `scratch`. -/
@[specialize] def objectiveSlopes (pb : BandProblem α) (stage : Stage) (b : Band α)
    (out : Array α) (scratch : Gradient α) : Sloped α :=
  let total := pb.weightSum
  let zero : Sloped α := ⟨0, out.map fun _ => 0⟩
  let (sum, _) := pb.points.foldl (pb.addPoint stage b total) (zero, scratch)
  let pen := pb.penalty stage b
  ⟨sum.value / total + pen.value, Array.zipWith (· + ·) sum.slopes pen.slopes⟩

/-- The minimization problem of a stage, over its parameters alone. -/
@[specialize] def stageProblem (pb : BandProblem α) (stage : Stage) (b : Band α) :
    Problem α where
  cost params := pb.objective stage (stage.replace b params)
  slope params := (pb.objectiveSlopes stage (stage.replace b params)
    (Array.replicate params.size 0) (.zero pb.layout)).slopes

/-- Minimizes a stage: the band with its new parameters, and the outcome. -/
@[specialize] def minimize (solver : Solver α) (pb : BandProblem α) (stage : Stage) (b : Band α)
    (tolerance : α) : Except (MinimizeError α) (Band α × Minimum α) :=
  let start := stage.params b
  (conjugateGradient solver.cycle (pb.stageProblem stage b) start
    (Array.replicate start.size stage.radius) tolerance pb.tuning.maxIterations).map fun m =>
    (stage.replace b m.point, m)

end BandProblem

end InkModel
