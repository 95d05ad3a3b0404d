import InkModel.Profile.Model

/-! # Gamut surfaces

Only the two-dimensional faces of the cube of device values can lie on the
surface of the gamut. Every pair of channels is swept over a grid while the
others are at 0 or 1, and every point is pulled back within the ink limit. The
corners of the cube are reported as cusps.
-/

namespace InkModel

open Scalar

inductive GamutEvent (α : Type) where
  | expand (point : Lab α)
  | beginCusps
  | addCusp (point : Lab α)
  | endCusps
  /-- White, black and black of the black ink. -/
  | neutrals (white black inkBlack : Lab α)
  deriving Repr, DecidableEq

/-- A gamut surface as far as it was reported. -/
structure GamutSurface (α : Type) where
  points : Array (Lab α) := #[]
  cusps : Array (Lab α) := #[]
  white : Option (Lab α) := none
  black : Option (Lab α) := none
  inkBlack : Option (Lab α) := none
  /-- Whether the cusps have begun and not ended. -/
  inCusps : Bool := false
  deriving Repr, DecidableEq

namespace GamutSurface

variable {α : Type}

/-- Takes up a report. Cusps count only after their beginning and before their
end, and a new beginning discards the earlier ones. -/
def receive (s : GamutSurface α) : GamutEvent α → GamutSurface α
  | .expand p => { s with points := s.points.push p }
  | .beginCusps => { s with cusps := #[], inCusps := true }
  | .addCusp p => if s.inCusps then { s with cusps := s.cusps.push p } else s
  | .endCusps => { s with inCusps := false }
  | .neutrals w b k => { s with white := some w, black := some b, inkBlack := some k }

def receiveAll (s : GamutSurface α) (events : List (GamutEvent α)) : GamutSurface α :=
  events.foldl receive s

variable [Scalar α]

def lowerCorner (p q : Lab α) : Lab α :=
  ⟨Scalar.min p.l q.l, Scalar.min p.a q.a, Scalar.min p.b q.b⟩

def upperCorner (p q : Lab α) : Lab α :=
  ⟨Scalar.max p.l q.l, Scalar.max p.a q.a, Scalar.max p.b q.b⟩

/-- The least and greatest coordinates of the surface points. -/
def bounds? (s : GamutSurface α) : Option (Lab α × Lab α) :=
  (s.points[0]?).map fun first =>
    (s.points.foldl lowerCorner first, s.points.foldl upperCorner first)

end GamutSurface

/-- Number of square faces of a cube of `n` dimensions; a line counts as one. -/
def faceCount (n : Nat) : Nat := if n < 2 then 1 else n * (n - 1) / 2 * 2 ^ (n - 2)

variable {α : Type} [Scalar α]

/-- Grid value `i` of `res` values from 0 to 1. -/
@[inline] def gridValue (res i : Nat) : α := Scalar.ofNat i / Scalar.ofNat (res - 1)

/-- The device values of a face: channels `a` and `b` at grid values, the other
channels at the bits of `fixed`, counted without `a` and `b`. -/
def facePoint (n res a b fixed i j : Nat) : Array α :=
  (Array.range n).map fun m =>
    if m = a then gridValue res i
    else if m = b then gridValue res j
    else
      let k := m - (if a < m then 1 else 0) - (if b < m then 1 else 0)
      Scalar.ofNat ((fixed >>> k) % 2)

/-- The device values on all faces at `res` values for each swept channel. -/
def facePoints (n res : Nat) : List (Array α) :=
  if n = 1 then (List.range res).map fun i => #[gridValue res i]
  else
    (List.range n).flatMap fun a =>
      ((List.range n).filter (a < ·)).flatMap fun b =>
        (List.range (2 ^ (n - 2))).flatMap fun fixed =>
          (List.range res).flatMap fun i =>
            (List.range res).map fun j => facePoint n res a b fixed i j

/-- The device values on all faces, pulled back within the limit. -/
def faceSamples (n res : Nat) (limit : Option α) : List (Array α) :=
  (facePoints n res).map (clipToLimit · limit)

/-- Whether the list `xs` comes after `ys` in the order of their first
difference; of a list and its beginning the longer comes after. -/
def lexAfter : List α → List α → Bool
  | [], _ => false
  | _ :: _, [] => true
  | x :: xs, y :: ys => if y < x then true else if x < y then false else lexAfter xs ys

def sameValues : List α → List α → Bool
  | [], [] => true
  | x :: xs, y :: ys => eqv x y && sameValues xs ys
  | _, _ => false

/-- Removes every entry that equals the one before it. -/
def dropRepeats : List (List α) → List (List α)
  | [] => []
  | [x] => [x]
  | x :: y :: rest =>
    if sameValues x y then dropRepeats (x :: rest) else x :: dropRepeats (y :: rest)
termination_by xs => xs.length

/-- The corners of the cube within the limit, in ascending order, each once. -/
def corners (n : Nat) (limit : Option α) : List (Array α) :=
  let all := (faceSamples n 2 limit).map Array.toList
  (dropRepeats (all.mergeSort fun x y => !lexAfter x y)).map List.toArray

namespace Model

/-- The device values that a gamut of a given detail samples; a smaller detail
is finer. -/
def gamutSamples (m : Model α) (detail : α) : Except (ModelError α) (List (Array α)) :=
  if Scalar.isFinite detail && decide (0 < detail) then
    let res := Scalar.max (Scalar.round (100 / detail)) 3
    let n := m.channels
    let count := Scalar.ofNat (faceCount n) * (if n = 1 then res else res * res)
    if Scalar.ofNat maxGamutSamples < count then
      .error (.invalidArgument (.tooFine detail count))
    else .ok (faceSamples n (Scalar.trunc res).toNat m.limit)
  else .error (.invalidArgument (.detail detail))

/-- Reports the gamut: surface points, cusps, and white and black. -/
@[specialize] def gamut (m : Model α) (detail : α) :
    Except (ModelError α) (List (GamutEvent α)) :=
  (m.gamutSamples detail).map fun devs =>
    let surface := devs.map fun dev => .expand (m.lookupLab dev)
    let cusps := (corners m.channels m.limit).map fun dev => .addCusp (m.lookupLab dev)
    let n := m.neutrals
    surface ++ .beginCusps :: cusps ++
      [.endCusps, .neutrals n.white.xyz.toLab n.black.xyz.toLab n.inkBlack.xyz.toLab]

/-- Feeds the gamut to a receiver, report by report. A detail that is refused reports nothing. -/
@[specialize] def feedGamut {σ : Type} (receive : σ → GamutEvent α → σ) (m : Model α)
    (detail : α) : EStateM (ModelError α) σ Unit := do
  let report (event : GamutEvent α) : EStateM (ModelError α) σ Unit := modify (receive · event)
  match m.gamutSamples detail with
  | .error e => throw e
  | .ok devs =>
    devs.forM fun dev => report (.expand (m.lookupLab dev))
    report .beginCusps
    (corners m.channels m.limit).forM fun dev => report (.addCusp (m.lookupLab dev))
    report .endCusps
    let n := m.neutrals
    report (.neutrals n.white.xyz.toLab n.black.xyz.toLab n.inkBlack.xyz.toLab)

/-- The whole surface of the gamut. -/
@[specialize] def surface (m : Model α) (detail : α) : Except (ModelError α) (GamutSurface α) :=
  match (m.feedGamut GamutSurface.receive detail).run {} with
  | .ok _ s => .ok s
  | .error e _ => .error e

end Model

end InkModel
