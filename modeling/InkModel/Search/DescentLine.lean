import InkModel.Search.Basic

/-! # Steps along a descent direction

Chooses a step along a direction in which the objective falls, so that the
objective falls enough and its slope flattens enough. An interval of
uncertainty is kept between two trial steps; the next trial is the minimum of
a cubic or quadratic through what is known there, and the interval is halved
when it does not shrink fast enough.
-/

namespace InkModel.DescentLine

/-- A fall of at least this fraction of what the slope promises is enough. -/
def fallFraction : Float := 1e-4

/-- A slope below this fraction of the first slope is flat enough. -/
def slopeFraction : Float := 0.9

/-- By how much a step may grow while no interval is known. -/
def growth : Float := 4.0

/-- Relative width below which the interval is small enough. -/
def widthTolerance : Float := 1e-10

/-- The spacing of doubles at 1. -/
def spacing : Float := 2.220446049250313e-16

def minStep : Float := Float.sqrt spacing

def maxStep : Float := 1.0 / 0.0

/-- A trial step with the objective and its slope along the direction. -/
structure Trial where
  /-- The step. -/
  x : Float
  /-- The objective. -/
  fx : Float
  /-- The slope along the direction. -/
  gx : Float

/-- The interval of uncertainty: the best end, the other end and the next
trial. -/
structure Interval where
  best : Trial
  other : Trial
  /-- The current trial, then the next. -/
  trial : Trial
  /-- Whether a minimum is known to lie inside. -/
  bracketed : Bool

/-- The larger of three numbers, where a NaN gives way. -/
def largest (a b c : Float) : Float := floatMax (floatMax a b) c

/-- The mean slope term of the cubic through two trials. -/
def cubicTheta (p q : Trial) : Float :=
  3.0 * (p.fx - q.fx) / (q.x - p.x) + p.gx + q.gx

/-- The size of the discriminant root of the cubic, before its sign. The
discriminant counts as zero below zero if `clipped`. -/
def cubicGamma (theta g1 g2 : Float) (clipped : Bool) : Float :=
  let s := largest theta g1 g2
  let t := theta / s
  let disc := t * t - (g1 / s) * (g2 / s)
  s * Float.sqrt (if clipped && disc < 0.0 then 0.0 else disc)

/-- How the next trial was chosen: whether it has to stay well inside the
interval, the trial, and whether a minimum is now known to lie inside. -/
structure Proposal where
  step : Float
  /-- Whether the step is pulled toward the best end. -/
  bound : Bool
  /-- Whether a minimum is now known to lie inside. -/
  bracketed : Bool

/-- Proposes the next trial from the ends and the current trial. -/
def Interval.propose (i : Interval) (lo hi : Float) : Proposal :=
  let x := i.best
  let y := i.other
  let p := i.trial
  let turn := p.gx * (x.gx / x.gx.abs)
  if x.fx < p.fx then
    -- The objective rose: a minimum lies between the best end and the trial.
    let theta := cubicTheta x p
    let g := cubicGamma theta x.gx p.gx false
    let g := if p.x < x.x then -g else g
    let r := ((g - x.gx) + theta) / (((g - x.gx) + g) + p.gx)
    let cubic := x.x + r * (p.x - x.x)
    let quad := x.x
      + ((x.gx / ((x.fx - p.fx) / (p.x - x.x) + x.gx)) / 2.0) * (p.x - x.x)
    let step := if (cubic - x.x).abs < (quad - x.x).abs then cubic
      else cubic + (quad - cubic) / 2.0
    ⟨step, true, true⟩
  else if turn < 0.0 then
    -- The slope changed its sign.
    let theta := cubicTheta x p
    let g := cubicGamma theta x.gx p.gx false
    let g := if x.x < p.x then -g else g
    let r := ((g - p.gx) + theta) / (((g - p.gx) + g) + x.gx)
    let cubic := p.x + r * (x.x - p.x)
    let quad := p.x + (p.gx / (p.gx - x.gx)) * (x.x - p.x)
    let step := if (quad - p.x).abs < (cubic - p.x).abs then cubic else quad
    ⟨step, false, true⟩
  else if p.gx.abs < x.gx.abs then
    -- The slope flattens.
    let theta := cubicTheta x p
    let g := cubicGamma theta x.gx p.gx true
    let g := if x.x < p.x then -g else g
    let r := ((g - p.gx) + theta) / ((g + (x.gx - p.gx)) + g)
    let cubic := if r < 0.0 && g != 0.0 then p.x + r * (x.x - p.x)
      else if x.x < p.x then hi else lo
    let quad := p.x + (p.gx / (p.gx - x.gx)) * (x.x - p.x)
    let nearer := (p.x - cubic).abs < (p.x - quad).abs
    let further := (p.x - quad).abs < (p.x - cubic).abs
    let step := if i.bracketed then (if nearer then cubic else quad)
      else (if further then cubic else quad)
    ⟨step, true, i.bracketed⟩
  else
    -- The slope does not flatten.
    let step :=
      if i.bracketed then
        let theta := cubicTheta y p
        let g := cubicGamma theta y.gx p.gx false
        let g := if y.x < p.x then -g else g
        let r := ((g - p.gx) + theta) / (((g - p.gx) + g) + y.gx)
        p.x + r * (y.x - p.x)
      else if x.x < p.x then hi else lo
    ⟨step, false, i.bracketed⟩

/-- Narrows the interval by its trial and chooses the next trial between `lo`
and `hi`; `none` when the trial lies outside or the direction is not one of
descent. -/
def Interval.narrow (i : Interval) (lo hi : Float) : Option Interval :=
  let x := i.best
  let y := i.other
  let p := i.trial
  if (i.bracketed && (p.x ≤ floatMin x.x y.x || floatMax x.x y.x ≤ p.x))
      || 0.0 ≤ x.gx * (p.x - x.x) || hi < lo then none
  else
    let c := i.propose lo hi
    let turned := p.gx * (x.gx / x.gx.abs) < 0.0
    let other := if x.fx < p.fx then p else if turned then x else y
    let best := if x.fx < p.fx then x else p
    let step := floatMax lo (floatMin hi c.step)
    let inner := best.x + 0.66 * (other.x - best.x)
    let step :=
      if c.bracketed && c.bound then
        if best.x < other.x then floatMin step inner else floatMax step inner
      else step
    some ⟨best, other, { p with x := step }, c.bracketed⟩

structure State where
  /-- The interval of uncertainty. The value of its trial is the one of the
  trial before, undefined at first. -/
  interval : Interval
  /-- Whether no trial has yet fallen enough with a slope that flattens. -/
  seeking : Bool
  width : Float
  /-- Width before the last. -/
  width1 : Float
  usable : Bool

/-- The objective along a direction: the first value and slope, and the slope
of the line below which a value has fallen enough. -/
structure Line where
  /-- Value at step 0. -/
  value : Float
  /-- Slope at step 0. -/
  slope : Float

/-- Slope of the line below which a value has fallen enough. -/
def Line.enough (l : Line) : Float := fallFraction * l.slope

/-- The search before its first trial, the step 1. -/
def Line.start (l : Line) : State :=
  let origin : Trial := ⟨0.0, l.value, l.slope⟩
  let nan := 0.0 / 0.0
  let width := maxStep - minStep
  ⟨⟨origin, origin, ⟨1.0, nan, nan⟩, false⟩, true, width, 2.0 * width, true⟩

/-- Ends of the interval within which the next trial must lie. -/
def State.limits (s : State) : Float × Float :=
  let i := s.interval
  if i.bracketed then (floatMin i.best.x i.other.x, floatMax i.best.x i.other.x)
  else (i.best.x, i.trial.x + growth * (i.trial.x - i.best.x))

/-- The step to try: the proposed one, unless the interval allows none; then
the best end. -/
def State.trialStep (s : State) (lo hi : Float) : Float :=
  let i := s.interval
  let x := floatMin (floatMax i.trial.x minStep) maxStep
  if i.bracketed && (x ≤ lo || hi ≤ x || hi - lo ≤ widthTolerance * hi) then i.best.x else x

/-- Whether the search ends at the trial `p`. -/
def State.ends (s : State) (l : Line) (lo hi : Float) (p : Trial) : Bool :=
  let i := s.interval
  let target := l.value + p.x * l.enough
  (i.bracketed && (p.x ≤ lo || hi ≤ p.x)) || !s.usable
    || ((p.x - maxStep).abs < spacing && p.fx ≤ target && p.gx ≤ l.enough)
    || ((p.x - minStep).abs < spacing && (target < p.fx || l.enough ≤ p.gx))
    || (i.bracketed && hi - lo ≤ widthTolerance * hi)
    || (p.fx ≤ target && p.gx.abs ≤ slopeFraction * -l.slope)

/-- The trial measured against the line below which a value has fallen
enough. -/
def Trial.lowered (t : Trial) (enough : Float) : Trial :=
  ⟨t.x, t.fx - t.x * enough, t.gx - enough⟩

/-- Narrows the interval by the trial `p`. While the search still seeks a
first good step, a trial that falls, but not enough, is measured against the
line below which it would. -/
def State.advance (s : State) (l : Line) (lo hi : Float) (p : Trial) : State :=
  let i := s.interval
  let target := l.value + p.x * l.enough
  let seeking := s.seeking &&
    !(p.fx ≤ target && floatMin fallFraction slopeFraction * l.slope ≤ p.gx)
  let lowered := seeking && p.fx ≤ i.trial.fx && target < p.fx
  let next :=
    if lowered then
      let e := l.enough
      let j : Interval := ⟨i.best.lowered e, i.other.lowered e, p.lowered e, i.bracketed⟩
      let (k, ok) := match j.narrow lo hi with
        | some k => (k, true)
        | none => (j, false)
      ((⟨⟨k.best.x, i.best.fx + k.best.x * e, i.best.gx + e⟩,
        ⟨k.other.x, i.other.fx + k.other.x * e, i.other.gx + e⟩, k.trial, k.bracketed⟩ :
        Interval), ok)
    else
      let j := { i with trial := p }
      match j.narrow lo hi with
      | some k => (k, true)
      | none => (j, false)
  let k := next.1
  if k.bracketed then
    let span := (k.other.x - k.best.x).abs
    let trial :=
      if 0.66 * s.width1 ≤ span then
        { k.trial with x := k.best.x + 0.5 * (k.other.x - k.best.x) }
      else k.trial
    ⟨{ k with trial }, seeking, span, s.width, next.2⟩
  else ⟨k, seeking, s.width, s.width1, next.2⟩

/-- What is found at a step: value and slope along the direction, and the
place that they belong to. -/
structure Probe (β : Type) where
  value : Float
  slope : Float
  place : β

/-- Tries steps until one is good, at most `fuel` of them. -/
@[specialize] def searchFrom {β : Type} (eval : Float → Probe β) (l : Line) :
    Nat → State → Option (Probe β)
  | 0, _ => none
  | fuel + 1, s =>
    let (lo, hi) := s.limits
    let x := s.trialStep lo hi
    let probe := eval x
    let p : Trial := ⟨x, probe.value, probe.slope⟩
    if s.ends l lo hi p then some probe
    else searchFrom eval l fuel (s.advance l lo hi p)

def maxTrials : Nat := 10000

/-- A good step along a line with the given first value and slope. -/
@[specialize] def search {β : Type} (eval : Float → Probe β) (value slope : Float) :
    Except String (Probe β) :=
  if 0.0 ≤ slope then .error "not a direction of descent"
  else
    let l : Line := ⟨value, slope⟩
    match searchFrom eval l maxTrials l.start with
    | some probe => .ok probe
    | none => .error "no step found"

end InkModel.DescentLine
