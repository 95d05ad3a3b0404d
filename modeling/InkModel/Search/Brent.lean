import InkModel.Search.Line

/-! # Interval search by parabolas and golden sections

Locates a minimum of a function of one double inside an interval. The next
point is the minimum of the parabola through the three best points, when that
is not outside and the steps are shrinking, and a golden section of the larger
part otherwise. The search ends when the interval around the best point is as
small as the tolerance.
-/

namespace InkModel.Brent

def maxSteps : Nat := 100

/-- Relative tolerance of the position: the square root of the spacing of
doubles at 1. -/
def relativeTolerance : Float := Float.sqrt 2.220446049250313e-16

def absoluteTolerance : Float := 1e-5

/-- The golden section of an interval, `(3 - √5) / 2`. -/
def goldenSection : Float := 0.5 * (3.0 - Float.sqrt 5.0)

/-- The interval with the three best points: `x` the best, `w` the second,
`v` the one that `w` replaced. -/
structure State where
  /-- Lower end. -/
  a : Float
  /-- Upper end. -/
  b : Float
  /-- Last step. -/
  d : Float
  /-- Step before the last. -/
  e : Float
  /-- Best point. -/
  x : Float
  /-- Value at the best point. -/
  fx : Float
  /-- Second best point. -/
  w : Float
  /-- Value at the second best point. -/
  fw : Float
  /-- Third point. -/
  v : Float
  /-- Value at the third point. -/
  fv : Float

/-- Distance from the best point below which no point is tried. -/
def State.tolerance (s : State) : Float := relativeTolerance * s.x.abs + absoluteTolerance

def State.middle (s : State) : Float := 0.5 * (s.a + s.b)

/-- Whether the interval is as small as the tolerance. -/
def State.finished (s : State) : Bool :=
  (s.x - s.middle).abs ≤ 2.0 * s.tolerance - 0.5 * (s.b - s.a)

/-- Takes the golden section of the larger part as the next step. -/
def State.goldenStep (s : State) : State :=
  let e := if s.x < s.middle then s.b - s.x else s.a - s.x
  { s with e, d := goldenSection * e }

/-- Chooses the next step: to the minimum of the parabola through the three
points if the parabola shrinks the steps and its minimum is not outside the
interval, and the golden section otherwise. The minimum is an end of the
interval when the last trial there did not change the three points; the step is
then as short as the tolerance allows. -/
def State.chooseStep (s : State) : State :=
  let tol := s.tolerance
  if tol < s.e.abs then
    let r := (s.x - s.w) * (s.fx - s.fv)
    let q := (s.x - s.v) * (s.fx - s.fw)
    let p := (s.x - s.v) * q - (s.x - s.w) * r
    let q := 2.0 * (q - r)
    let p := if 0.0 < q then -p else p
    let q := if 0.0 < q then q else -q
    if p.abs < (0.5 * q * s.e).abs && q * (s.a - s.x) ≤ p && p ≤ q * (s.b - s.x) then
      let d := p / q
      let u := s.x + d
      let near := u - s.a < 2.0 * tol || s.b - u < 2.0 * tol
      { s with
        e := s.d
        d := if near then (if s.x < s.middle then tol else -tol) else d }
    else s.goldenStep
  else s.goldenStep

/-- The point that the chosen step leads to, never closer than the tolerance. -/
def State.target (s : State) : Float :=
  let tol := s.tolerance
  s.x + (if tol ≤ s.d.abs then s.d else if 0.0 < s.d then tol else -tol)

/-- Takes up the value `fu` at the point `u`. -/
def State.insert (s : State) (u fu : Float) : State :=
  if fu ≤ s.fx then
    let s := if u < s.x then { s with b := s.x } else { s with a := s.x }
    { s with v := s.w, fv := s.fw, w := s.x, fw := s.fx, x := u, fx := fu }
  else
    let s := if u < s.x then { s with a := u } else { s with b := u }
    if fu ≤ s.fw || s.w == s.x then
      { s with v := s.w, fv := s.fw, w := u, fw := fu }
    else if fu ≤ s.fv || s.v == s.x || s.v == s.w then { s with v := u, fv := fu }
    else s

/-- The better of the best point so far and the current one; an undefined
value is never better. -/
def keepBetter (best : Option (LinePoint Float)) (s : State) : Option (LinePoint Float) :=
  match best with
  | none => if s.fx < 1.0 / 0.0 then some ⟨s.x, s.fx⟩
            else if s.fx == 1.0 / 0.0 then some ⟨s.x, s.fx⟩ else none
  | some p =>
    if s.fx < p.value || (s.fx.isInf && p.value.isInf && (0.0 < s.fx) == (0.0 < p.value))
    then some ⟨s.x, s.fx⟩ else best

/-- At most `fuel` more steps. -/
def searchFrom (f : Float → Float) : Nat → Option (LinePoint Float) → State →
    Option (LinePoint Float)
  | 0, best, _ => best
  | fuel + 1, best, s =>
    if s.finished then best
    else
      let s := s.chooseStep
      let u := s.target
      let s := s.insert u (f u)
      searchFrom f fuel (keepBetter best s) s

/-- Searches a minimum of `f` between `lo` and `hi`. -/
def search : IntervalSearch Float := fun f lo hi =>
  let x := lo + goldenSection * (hi - lo)
  let fx := f x
  let s : State := ⟨lo, hi, 0, 0, x, fx, x, fx, x, fx⟩
  .ok (searchFrom f maxSteps (keepBetter none s) s)

end InkModel.Brent
