import InkModel.Search.Basic

/-! # Gradient minimization

The search runs in restart cycles of as many iterations as there are
parameters. What happens within a cycle is a parameter here; a cycle that
fails sends the search into cycles of one steepest descent step, and a failure
of such a step ends it. Coordinates are divided by the search radii, so that
parameters of different ranges are stepped comparably.
-/

namespace InkModel

open Scalar

variable {α : Type} [Scalar α]

structure Cycle (α : Type) where
  best : Array α
  value : α
  iterations : Nat
  /-- Whether the cycle ended because its iterations were used up. -/
  hitLimit : Bool

/-- A cycle of at most the given number of iterations from a point. -/
abbrev CycleSearch (α : Type) :=
  Problem α → Array α → Nat → Except String (Cycle α)

namespace Problem

/-- The problem in coordinates divided by `scale`. -/
@[specialize] def scaled (pb : Problem α) (scale : Array α) : Problem α where
  cost q := pb.cost (Array.zipWith (· * ·) q scale)
  slope q := Array.zipWith (· * ·) (pb.slope (Array.zipWith (· * ·) q scale)) scale

end Problem

/-- Added to the magnitude of the objective in the tolerance test. -/
@[inline] def cycleEpsilon : α := 1.0e-18

/-- Whether a cycle from `before` to `after` gains too little to go on. -/
@[inline] def cycleStalled (ftol before after : α) : Bool :=
  decide (2 * Scalar.abs (before - after) ≤
    ftol * (Scalar.abs before + Scalar.abs after + cycleEpsilon))

/-- Runs cycles of `span` iterations, with `used` of `maxIter` iterations
behind, from the point `q` of objective `value`. -/
@[specialize] def cyclesFrom (cycle : CycleSearch α) (pb : Problem α) (ftol : α) (maxIter : Nat)
    (span used : Nat) (q : Array α) (value : α) : Minimum α :=
  if _hUsed : used < maxIter then
    match cycle pb q (min span (maxIter - used)) with
    | .error _ =>
      if _hSpan : 1 < span then cyclesFrom cycle pb ftol maxIter 1 used q value
      else ⟨q, value, used, true⟩
    | .ok run =>
      let used' := used + max run.iterations 1
      let better := decide (run.value < value)
      let q' := if better then run.best else q
      let value' := if better then run.value else value
      if cycleStalled ftol value value' || !run.hitLimit then ⟨q', value', used', true⟩
      else cyclesFrom cycle pb ftol maxIter span used' q' value'
  else ⟨q, value, used, false⟩
termination_by (maxIter - used, span)
decreasing_by
  · exact Prod.Lex.right _ _hSpan
  · exact Prod.Lex.left _ _ (by omega)

/-- Writes values over the entries of a table, as far as there are values. -/
@[specialize] def overwrite (old values : Array α) : Array α :=
  old.mapIdx fun i x => values.getD i x

/-- Minimizes a problem by its gradient in place, from the point that is there, with at most
`maxIter` iterations. The point is written over once, after the last cycle. -/
@[specialize] def descend (cycle : CycleSearch α) (pb : Problem α) (radii : Array α) (ftol : α)
    (maxIter : Nat) : EStateM (MinimizeError α) (Array α) (Minimum α) := do
  let p ← get
  match checkSetup p.size radii.size with
  | .error e => throw e
  | .ok _ =>
    let scale := radii.map usableRadius
    let inner := pb.scaled scale
    let q := Array.zipWith (· / ·) p scale
    let value := inner.cost q
    if !Scalar.isFinite value then throw (.nonFinite value)
    let m := cyclesFrom cycle inner ftol maxIter p.size 0 q value
    modify fun p => overwrite p (Array.zipWith (· * ·) m.point scale)
    return { m with point := ← get, iterations := min m.iterations maxIter }

/-- Minimizes a problem by its gradient from `p`, with at most `maxIter`
iterations. -/
@[specialize] def conjugateGradient (cycle : CycleSearch α) (pb : Problem α) (p radii : Array α)
    (ftol : α) (maxIter : Nat) : Except (MinimizeError α) (Minimum α) :=
  match (descend cycle pb radii ftol maxIter).run p with
  | .ok m _ => .ok m
  | .error e _ => .error e

end InkModel
