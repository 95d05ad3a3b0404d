import InkModel.Search.ConjugateGradient
import InkModel.Search.DescentLine

/-! # One cycle of conjugate gradient steps

Every step goes along a direction in which the objective falls. The next
direction is the steepest descent corrected by the last one, with the strength
that Polak and Ribière give, unless successive slopes are far from orthogonal.
-/

namespace InkModel.ConjugateCycle

/-- Above this share of common direction, successive slopes start anew. -/
def orthogonality : Float := 0.1

/-- The inner product, added from the left. -/
def dot (a b : Array Float) : Float :=
  (Array.zipWith (· * ·) a b).foldl (· + ·) 0.0

/-- The squared length, taken through the length itself. -/
def squaredNorm (a : Array Float) : Float :=
  let len := Float.sqrt (a.foldl (fun acc x => acc + x * x) 0.0)
  len * len

/-- Where a cycle stands. -/
structure State where
  point : Array Float
  cost : Float
  slope : Array Float
  direction : Array Float

/-- Strength with which the last direction enters the next. -/
def correction (old new : Array Float) : Float :=
  if orthogonality ≤ (dot new old).abs / squaredNorm new then 0.0
  else dot new (Array.zipWith (· - ·) new old) / squaredNorm old

/-- One step: a good point along the direction, then the next direction. -/
def State.step (pb : Problem Float) (s : State) : Except String State := do
  let eval (t : Float) : DescentLine.Probe (Array Float × Array Float) :=
    let point := Array.zipWith (fun x d => x + t * d) s.point s.direction
    let slope := pb.slope point
    ⟨pb.cost point, dot s.direction slope, (point, slope)⟩
  let good ← DescentLine.search eval s.cost (dot s.direction s.slope)
  let (point, slope) := good.place
  let beta := correction s.slope slope
  return {
    point
    cost := good.value
    slope
    direction := Array.zipWith (fun g p => g * -1.0 + p * beta) slope s.direction }

/-- The best point of a cycle so far, if one had a defined value. -/
abbrev Best := Option (Array Float × Float)

/-- The better of the best point so far and the current one; an undefined
value is never better. -/
def keepBetter (best : Best) (s : State) : Best :=
  let previous := match best with
    | some (_, v) => v
    | none => 1.0 / 0.0
  if s.cost < previous || (s.cost.isInf && previous.isInf && (0.0 < s.cost) == (0.0 < previous))
  then some (s.point, s.cost) else best

/-- At most `fuel` more steps, with `done` behind. -/
def stepsFrom (pb : Problem Float) (start : Array Float) : (fuel done : Nat) → Best → State →
    Except String (Cycle Float)
  | fuel, done, best, s =>
    let finish (hitLimit : Bool) : Cycle Float := match best with
      | some (p, v) => ⟨p, v, done, hitLimit⟩
      | none => ⟨start, 1.0 / 0.0, done, hitLimit⟩
    match fuel with
    | 0 => .ok (finish true)
    | fuel + 1 =>
      if (best.map (·.2)).any (· ≤ -1.0 / 0.0) then .ok (finish false)
      else do
        let s' ← s.step pb
        stepsFrom pb start fuel (done + 1) (keepBetter best s') s'

/-- A cycle of at most `steps` steps from `start`. -/
def run : CycleSearch Float := fun pb start steps =>
  let slope := pb.slope start
  let s : State := ⟨start, pb.cost start, slope, slope.map (· * -1.0)⟩
  stepsFrom pb start steps 0 (keepBetter none s) s

end InkModel.ConjugateCycle
