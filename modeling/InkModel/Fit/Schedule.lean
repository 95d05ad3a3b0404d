import InkModel.Fit.Objective
import InkModel.Fit.Start
import InkModel.Profile.Model

/-! # Fitting a model

Bands are fitted one after another, in an order in which each can start from a
neighbour that was fitted before it. Every band then runs its passes; a pass
minimizes each stage in turn, with a tolerance that tightens from pass to pass.
-/

namespace InkModel

open Scalar

/-- A band in the order of fitting, with the band that it starts from. -/
structure Turn where
  band : Nat
  /-- The band whose curves it may take over. -/
  source : Option Nat
  deriving Repr, DecidableEq

/-- The band of spectral band `i`. -/
def spectralBand (i : Nat) : Nat := xyzBands + i

variable {α : Type} [Scalar α]

/-- The order of fitting. A spectral model begins near 555 nm, goes up to the
longest and then down to the shortest wavelength, and ends with Y, X and Z; a
colorimetric model begins with Y. -/
def bandOrder (spectral : Option (SpectralShape α)) : List Turn :=
  match spectral with
  | none => [⟨1, none⟩, ⟨0, some 1⟩, ⟨2, some 1⟩]
  | some s =>
    let start := s.indexNearest 555
    let up := ((List.range s.bands).filter (start < ·)).map fun i =>
      (⟨spectralBand i, some (spectralBand (i - 1))⟩ : Turn)
    let down := (List.range start).reverse.map fun i =>
      (⟨spectralBand i, some (spectralBand (i + 1))⟩ : Turn)
    ⟨spectralBand start, none⟩ :: up ++ down ++
      [⟨1, some (spectralBand start)⟩,
       ⟨0, some (spectralBand (s.indexNearest 600))⟩,
       ⟨2, some (spectralBand (s.indexNearest 445))⟩]

/-- The curves of a band with only the first harmonic of each channel. -/
def firstHarmonics (l : Layout) (curves : Array α) : Array α :=
  curves.mapIdx fun i c => if i % l.order = 0 then c else 0

/-- The best of three starts: a band's own curves, the source's curves and
shapes, or only the source's first harmonics. -/
@[specialize] def warmStart (pb : BandProblem α) (b source : Band α) : Band α :=
  let full := { b with transfer := source.transfer, shape := source.shape }
  let first := { b with transfer := firstHarmonics pb.layout source.transfer }
  let ownError := pb.error b
  let fullError := pb.error full
  let firstError := pb.error first
  if fullError ≤ ownError ∧ fullError ≤ firstError then full
  else if firstError < ownError then first
  else b

def stagesOf (l : Layout) : List Stage :=
  if l.shaped then [.transfer, .shape, .primaries] else [.transfer, .primaries]

@[specialize] def runStages (solver : Solver α) (pb : BandProblem α) (tolerance : α)
    (b : Band α) : List Stage → Except (ModelError α) (Band α)
  | [] => .ok b
  | stage :: rest =>
    match pb.minimize solver stage b tolerance with
    | .error e => .error (.minimize e)
    | .ok (b', _) => runStages solver pb tolerance b' rest

structure FittedBand (α : Type) where
  band : Band α
  error : α

/-- Whether a pass from the error `last` to `error` gains too little to go on. -/
@[inline] def exitsEarly (earlyExit : Option α) (last error : α) : Bool :=
  match earlyExit with
  | some eps => decide (last - error ≤ eps * last)
  | none => false

/-- Runs at most `passes` passes, of which the first has the given tolerance.
The error is followed from pass to pass when `last` is given. -/
@[specialize] def runPasses (solver : Solver α) (pb : BandProblem α) (earlyExit : Option α) :
    (passes : Nat) → (tolerance : α) → (last : Option α) → Band α →
    Except (ModelError α) (FittedBand α)
  | 0, _, last, b => .ok ⟨b, match last with
    | some e => e
    | none => pb.error b⟩
  | passes + 1, tolerance, last, b =>
    match runStages solver pb tolerance b (stagesOf pb.layout) with
    | .error e => .error e
    | .ok b' =>
      let tolerance' := tolerance * pb.tuning.toleranceFactor
      match last with
      | none => runPasses solver pb earlyExit passes tolerance' none b'
      | some before =>
        let e := pb.error b'
        if exitsEarly earlyExit before e then .ok ⟨b', e⟩
        else runPasses solver pb earlyExit passes tolerance' (some e) b'

/-- Fits one band, started from another if one is given. -/
@[specialize] def fitBand (solver : Solver α) (pb : BandProblem α) (opts : FitOptions α)
    (passes : Nat) (b : Band α) (source : Option (Band α)) :
    Except (ModelError α) (FittedBand α) :=
  let start := match source with
    | some src => warmStart pb b src
    | none => b
  let last := if opts.verbose || opts.earlyExit.isSome then some (pb.error start) else none
  runPasses solver pb opts.earlyExit passes pb.tuning.firstTolerance last start

@[specialize] def fitTurns (solver : Solver α) (opts : FitOptions α)
    (problem : Nat → BandProblem α) (bands : Array (Band α)) :
    List Turn → Except (ModelError α) (Array (Band α))
  | [] => .ok bands
  | turn :: rest =>
    let empty : Band α := ⟨#[], #[], #[]⟩
    let source := turn.source.map fun s => bands.getD s empty
    match fitBand solver (problem turn.band) opts opts.quality.passes
        (bands.getD turn.band empty) source with
    | .error e => .error e
    | .ok fitted =>
      fitTurns solver opts problem (bands.setIfInBounds turn.band fitted.band) rest

@[specialize] def fit (solver : Solver α) (inks : InkSet) (samples : List (Sample α))
    (opts : FitOptions α) : Except (ModelError α) (Parts α) := do
  checkInks inks.count
  let spectralBands ← spectralCount opts.spectral
  let l : Layout := ⟨inks.count, opts.quality.transferOrder, opts.shaped⟩
  let points ← fitPoints l.channels spectralBands samples
  let first := initialBands l points inks.additive opts.tuning
  let problem (j : Nat) : BandProblem α :=
    { layout := l
      points
      band := j
      tuning := opts.tuning
      anchors := ((first[j]?).map (·.primaries)).getD #[] |>.map lightness }
  let bands ← fitTurns solver opts problem first (bandOrder opts.spectral)
  return {
    inks
    limit := opts.limit
    order := l.order
    shaped := l.shaped
    spectral := opts.spectral
    instrument := opts.instrument
    created := none
    bands }

@[specialize] def Model.ofSamples (solver : Solver α) (inks : InkSet) (samples : List (Sample α))
    (opts : FitOptions α) : Except (ModelError α) (Model α) := do
  let parts ← fit solver inks samples opts
  let model ← Model.build solver parts opts.tuning
  if opts.verbose then
    let _ ← model.fitReport samples
  return model

end InkModel
