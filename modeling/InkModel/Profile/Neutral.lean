import InkModel.Profile.Options
import InkModel.Profile.Response
import InkModel.Search.ConjugateGradient
import InkModel.Search.Powell

/-! # White and black points

A display is white with every channel at full and black with every channel
off. A printer is white where it prints nothing; its black is searched for: the
darkest device values within the ink limit on the neutral line, which runs from
white toward the black ink or an overprint of cyan, magenta and yellow.
-/

namespace InkModel

open Scalar

/-- The searches that fitting and the black point rest on. -/
structure Solver (α : Type) where
  interval : IntervalSearch α
  cycle : CycleSearch α
  /-- The first numbers in `[0, 1)` of a seed. -/
  uniform : (seed count : Nat) → Array α

structure DevicePoint (α : Type) where
  dev : Array α
  xyz : Xyz α
  deriving Repr, DecidableEq

structure Neutrals (α : Type) where
  white : DevicePoint α
  black : DevicePoint α
  /-- Black made with the black ink alone; without such an ink the same as
  `black`. -/
  inkBlack : DevicePoint α
  deriving Repr, DecidableEq

variable {α : Type} [Scalar α]

@[specialize] def Response.point (r : Response α) (dev : Array α) : DevicePoint α :=
  ⟨dev, r.lookup dev⟩

@[specialize] def displayNeutrals (r : Response α) : Neutrals α :=
  let white := r.point (Array.replicate r.channels 1)
  let black := r.point (Array.replicate r.channels 0)
  ⟨white, black, black⟩

/-- The black ink alone, at full or as much as the limit allows. -/
def inkBlackDev (r : Response α) : Option (Array α) :=
  (r.parts.inks.channelOf? .black).map fun k =>
    let full := match r.limit with
      | some l => Scalar.min l 1
      | none => 1
    (Array.replicate r.channels 0).setIfInBounds k full

/-- Where the neutral line heads: the black ink, else the overprint of cyan,
magenta and yellow, else Lab black. -/
@[specialize] def neutralTarget (r : Response α) : Lab α :=
  let inks := r.parts.inks
  match inkBlackDev r with
  | some dev => r.lookupLab dev
  | none =>
    match inks.channelOf? .cyan, inks.channelOf? .magenta, inks.channelOf? .yellow with
    | some c, some m, some y =>
      let paper : Array α := Array.replicate r.channels 0
      let dev := ((paper.setIfInBounds c 1).setIfInBounds m 1).setIfInBounds y 1
      r.lookupLab (clipToLimit dev r.limit)
    | _, _, _ => ⟨0, 0, 0⟩

/-- Lightness difference below which the neutral line counts as flat. -/
@[inline] def flatLine : α := 1e-6

/-- By how much device values leave their range and the limit. -/
@[specialize] def excess (limit : Option α) (dev : Array α) : α :=
  let outside := dev.foldl (fun acc d => acc + (Scalar.max (-d) 0 + Scalar.max (d - 1) 0)) 0
  match limit with
  | some l => outside + Scalar.max ((dev.map saturate).foldl (· + ·) 0 - l) 0
  | none => outside

/-- Lightness, distance from the neutral line and excess of device values with the colour `lab`. -/
@[specialize] def blackCost (limit : Option α) (t : Tuning α) (white target lab : Lab α)
    (dev : Array α) : α :=
  let dl := target.l - white.l
  let s := if Scalar.abs dl < flatLine then 1 else (lab.l - white.l) / dl
  let da := lab.a - (white.a + s * (target.a - white.a))
  let db := lab.b - (white.b + s * (target.b - white.b))
  lab.l + t.neutralWeight * (da * da + db * db) + t.rangeWeight * excess limit dev

/-- What the search for the black point minimizes. -/
@[specialize] def blackObjective (r : Response α) (t : Tuning α) (white target : Lab α)
    (dev : Array α) : α :=
  blackCost r.limit t white target (r.lookupLab (dev.map saturate)) dev

@[inline] def blackRadius : α := 0.1

@[inline] def blackTolerance : α := 1e-6

def blackSweeps : Nat := 500

/-- The better of the best outcome so far and another; the first of equals. -/
@[specialize] def betterOf (best : Option (Minimum α)) (m : Minimum α) : Minimum α :=
  match best with
  | none => m
  | some b => if m.value < b.value then m else b

/-- Runs trials from random starts; `best` is the best outcome so far. -/
@[specialize] def blackTrials (solver : Solver α) (objective : Array α → α) (limit : Option α)
    (n : Nat) (best : Option (Minimum α)) :
    List (Array α) → Except (ModelError α) (Option (Minimum α))
  | [] => .ok best
  | start :: starts =>
    match powell solver.interval objective (clipToLimit start limit)
        (Array.replicate n blackRadius) blackTolerance blackSweeps with
    | .error e => .error (.minimize e)
    | .ok m => blackTrials solver objective limit n (some (betterOf best m)) starts

@[specialize] def blackStarts (solver : Solver α) (t : Tuning α) (n : Nat) : List (Array α) :=
  let trials := max t.blackRestarts 1
  let numbers := solver.uniform t.blackSeed (trials * n)
  (List.range trials).map fun i => numbers.extract (i * n) ((i + 1) * n)

@[specialize] def printerNeutrals (solver : Solver α) (r : Response α) (t : Tuning α) :
    Except (ModelError α) (Neutrals α) :=
  let n := r.channels
  let limit := r.limit
  let white := r.point (Array.replicate n 0)
  let whiteLab := white.xyz.toLab
  let target := neutralTarget r
  let objective := blackObjective r t whiteLab target
  match blackTrials solver objective limit n none (blackStarts solver t n) with
  | .error e => .error e
  | .ok none => .error (.blackPoint none)
  | .ok (some best) =>
    if t.blackFail < best.value then .error (.blackPoint (some best.value))
    else
      let black := r.point (clipToLimit (best.point.map saturate) limit)
      .ok ⟨white, black, match inkBlackDev r with
        | some dev => r.point dev
        | none => black⟩

@[specialize] def findNeutrals (solver : Solver α) (r : Response α) (t : Tuning α) :
    Except (ModelError α) (Neutrals α) :=
  if r.parts.inks.additive then .ok (displayNeutrals r) else printerNeutrals solver r t

end InkModel
