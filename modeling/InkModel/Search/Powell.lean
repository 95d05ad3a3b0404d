import InkModel.Search.Line

/-! # Direction set minimization

A minimizer without derivatives. Each sweep minimizes along every direction of
a set in turn; afterwards the direction of the largest drop may give way to
the average direction moved. The search ends when a sweep gains too little.
-/

namespace InkModel

open Scalar

variable {α : Type} [Scalar α]

structure Sweep (α : Type) where
  point : Array α
  value : α
  drop : α
  dropIndex : Nat

/-- Added to the tolerance, so that a value of exactly zero can converge. -/
@[inline] def tinyTolerance : α := 1.0e-25

/-- Minimizes along the directions from index `i` on. -/
@[specialize] def sweepFrom (search : IntervalSearch α) (f : Array α → α) (i : Nat)
    (s : Sweep α) : List (Array α) → Except (MinimizeError α) (Sweep α)
  | [] => .ok s
  | dir :: dirs =>
    match lineMinimize search f s.point dir with
    | .error e => .error e
    | .ok m =>
      let gain := s.value - m.value
      let s' : Sweep α :=
        if s.drop < gain then ⟨m.point, m.value, gain, i⟩
        else { s with point := m.point, value := m.value }
      sweepFrom search f (i + 1) s' dirs

/-- Moves the last direction to position `i` and puts `dir` in its place. -/
def replaceDirection (dirs : Array (Array α)) (i : Nat) (dir : Array α) : Array (Array α) :=
  let last := dirs.size - 1
  (dirs.setIfInBounds i (dirs.getD last #[])).setIfInBounds last dir

/-- Whether a sweep from `before` to `after` gains too little to go on. -/
@[inline] def sweepStalled (ftol before after : α) : Bool :=
  decide (2 * (before - after) ≤ ftol * (Scalar.abs before + Scalar.abs after) + tinyTolerance)

/-- Whether the average direction of a sweep should replace the direction of
the largest drop: `far` is the objective at the point reached by going the
same way once more. -/
@[inline] def takesAverage (before after far drop : α) : Bool :=
  decide (far < before) &&
    decide (2 * (before - 2 * after + far) * sq (before - after - drop)
      - drop * sq (before - far) < 0)

/-- Where the search stands between two sweeps. -/
structure PowellState (α : Type) where
  directions : Array (Array α)
  point : Array α
  value : α
  /-- The point from which the average direction is taken: the end of the
  previous sweep, before its average step. -/
  origin : Array α

/-- Goes on after the sweep `s`: the average direction moved since the origin
is searched and kept when it promises more than the direction that it replaces. -/
@[specialize] def afterSweep (search : IntervalSearch α) (f : Array α → α)
    (st : PowellState α) (s : Sweep α) : Except (MinimizeError α) (PowellState α) :=
  let far := f (Array.zipWith (fun x x0 => 2 * x - x0) s.point st.origin)
  if takesAverage st.value s.value far s.drop then
    let average := Array.zipWith (· - ·) s.point st.origin
    (lineMinimize search f s.point average).map fun m =>
      { directions := replaceDirection st.directions s.dropIndex m.displacement
        point := m.point
        value := m.value
        origin := s.point }
  else
    .ok { st with point := s.point, value := s.value, origin := s.point }

/-- Sweeps until one gains too little, at most `fuel` more times; `done`
sweeps lie behind. -/
@[specialize] def powellSweeps (search : IntervalSearch α) (f : Array α → α) (ftol : α) :
    (fuel done : Nat) → PowellState α → Except (MinimizeError α) (Minimum α)
  | 0, done, st => .ok ⟨st.point, st.value, done, false⟩
  | fuel + 1, done, st =>
    match sweepFrom search f 0 ⟨st.point, st.value, 0, 0⟩ st.directions.toList with
    | .error e => .error e
    | .ok s =>
      if sweepStalled ftol st.value s.value then .ok ⟨s.point, s.value, done + 1, true⟩
      else
        match afterSweep search f st s with
        | .error e => .error e
        | .ok st' => powellSweeps search f ftol fuel (done + 1) st'

/-- The coordinate axes, each scaled by its search radius. -/
@[specialize] def axisDirections (radii : Array α) : Array (Array α) :=
  radii.mapIdx fun i r => (Array.replicate radii.size 0).setIfInBounds i (usableRadius r)

/-- Minimizes `f` from `p` by direction sets, with at most `maxIter` sweeps. -/
@[specialize] def powell (search : IntervalSearch α) (f : Array α → α) (p radii : Array α)
    (ftol : α) (maxIter : Nat) : Except (MinimizeError α) (Minimum α) :=
  match checkSetup p.size radii.size with
  | .error e => .error e
  | .ok _ =>
    let value := f p
    if Scalar.isFinite value then
      powellSweeps search f ftol maxIter 0 ⟨axisDirections radii, p, value, p⟩
    else .error (.nonFinite value)

end InkModel
