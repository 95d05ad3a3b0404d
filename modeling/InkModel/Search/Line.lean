import InkModel.Search.Basic

/-! # Minimization along a line

The minimum along a direction is bracketed by golden ratio expansion from the
current point and then located by an interval search, which is a parameter
here. A line minimization never goes uphill: the best bracket point is kept
when the interval search does not reach its value.
-/

namespace InkModel

open Scalar

/-- A point of a line, as a step along its direction, with the objective. -/
structure LinePoint (α : Type) where
  /-- Step in units of the direction. -/
  step : α
  value : α
  deriving Repr

/-- A search for the minimum of a function on an interval: the best point
that it saw, if it saw one with a defined value. -/
abbrev IntervalSearch (α : Type) :=
  (α → α) → α → α → Except String (Option (LinePoint α))

structure LineMinimum (α : Type) where
  /-- Step in units of the direction. -/
  step : α
  value : α
  point : Array α
  /-- The displacement: the direction scaled by the step. -/
  displacement : Array α
  deriving Repr

/-- An interval around a minimum with the best point sampled so far. -/
structure Bracket (α : Type) where
  /-- Lower end. -/
  lo : α
  /-- Upper end. -/
  hi : α
  best : LinePoint α

variable {α : Type} [Scalar α]

@[inline] def goldenRatio : α := 1.618034

def bracketExpansions : Nat := 60

/-- The point `p + t · dir`. A coordinate without a direction is 0. -/
@[specialize] def alongLine (p dir : Array α) (t : α) : Array α :=
  p.mapIdx fun i x => match dir[i]? with
    | some d => x + t * d
    | none => 0

/-- Expands a bracket while its far end `c` lies lower than its middle `b`. -/
@[specialize] def expandBracket (f : α → α) : Nat → (a b fb c fc : α) → Bracket α
  | 0, a, b, fb, c, _ => ⟨Scalar.min a c, Scalar.max a c, ⟨b, fb⟩⟩
  | fuel + 1, a, b, fb, c, fc =>
    if fc < fb then
      let c' := c + goldenRatio * (c - b)
      expandBracket f fuel b c fc c' (f c')
    else ⟨Scalar.min a c, Scalar.max a c, ⟨b, fb⟩⟩

/-- Brackets a minimum of `f`, from the steps 0 and 1 downhill. -/
@[specialize] def bracket (f : α → α) : Bracket α :=
  let f0 := f 0
  let f1 := f 1
  if f0 < f1 then
    let c : α := 0 + goldenRatio * (0 - 1)
    expandBracket f bracketExpansions 1 0 f0 c (f c)
  else
    let c : α := 1 + goldenRatio * (1 - 0)
    expandBracket f bracketExpansions 0 1 f1 c (f c)

/-- Minimizes `f` along the line through `p` in the direction `dir`. -/
@[specialize] def lineMinimize (search : IntervalSearch α) (f : Array α → α)
    (p dir : Array α) : Except (MinimizeError α) (LineMinimum α) := do
  let line := fun t => f (alongLine p dir t)
  let br := bracket line
  let found ← (search line br.lo br.hi).mapError .solver
  let best := match found with
    | some x => if x.value ≤ br.best.value then x else br.best
    | none => br.best
  let displacement := dir.map (· * best.step)
  return {
    step := best.step
    value := best.value
    point := p.mapIdx fun i x => match displacement[i]? with
      | some d => x + d
      | none => x
    displacement }

end InkModel
