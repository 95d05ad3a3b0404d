import InkModel.Color.Spectrum
import InkModel.Profile.Error

/-! # The parameters of a model

Everything that a model is built from: its colorants, dimensions and band
parameters. The bands X, Y and Z come first, then one for each spectral band.
-/

namespace InkModel

open Scalar

structure Parts (α : Type) where
  inks : InkSet
  /-- Ink limit as a sum of fractions. -/
  limit : Option α
  order : Nat
  shaped : Bool
  spectral : Option (SpectralShape α)
  instrument : Option String
  created : Option String
  bands : Array (Band α)
  deriving Repr

def Band.zero {α : Type} [Scalar α] (l : Layout) : Band α :=
  ⟨Array.replicate l.transferCount 0, Array.replicate l.shapeCount 0,
    Array.replicate l.combinations 0⟩

def checkInks {α : Type} (n : Nat) : Except (ModelError α) Unit :=
  if maxInks < n then .error (.tooManyInks n) else .ok ()

/-- The number of spectral bands of a layout, unless there are too many. -/
def spectralCount {α : Type} (spectral : Option (SpectralShape α)) : Except (ModelError α) Nat :=
  match spectral with
  | none => .ok 0
  | some s => if maxBands < s.bands then .error (.tooManyBands s.bands) else .ok s.bands

/-- Refuses a band whose tables have not the sizes of the layout. -/
def Band.check {α : Type} (b : Band α) (l : Layout) (index : Nat) : Except (ModelError α) Unit :=
  if b.transfer.size ≠ l.transferCount then
    .error (.invalidArgument (.tableSize index b.transfer.size .transfer l.transferCount))
  else if b.shape.size ≠ l.shapeCount then
    .error (.invalidArgument (.tableSize index b.shape.size .shape l.shapeCount))
  else if b.primaries.size ≠ l.combinations then
    .error (.invalidArgument (.tableSize index b.primaries.size .primaries l.combinations))
  else .ok ()

theorem Band.check_eq_ok_iff {α : Type} {b : Band α} {l : Layout} {index : Nat} :
    b.check l index = .ok () ↔ b.Fits l := by
  unfold Band.check Band.Fits
  split <;> simp_all
  split <;> simp_all

/-- Refuses the first band whose tables have not the sizes of the layout. -/
def checkBands {α : Type} (l : Layout) (index : Nat) :
    List (Band α) → Except (ModelError α) Unit
  | [] => .ok ()
  | b :: bs =>
    match b.check l index with
    | .error e => .error e
    | .ok _ => checkBands l (index + 1) bs

namespace Parts

variable {α : Type} [Scalar α]

def layout (p : Parts α) : Layout := ⟨p.inks.count, p.order, p.shaped⟩

/-- A plain n-linear model with the given colour at every combination. -/
def ofPrimaries (inks : InkSet) (primaries : List (Xyz α)) :
    Except (ModelError α) (Parts α) := do
  checkInks inks.count
  let l : Layout := ⟨inks.count, 1, false⟩
  if primaries.length ≠ l.combinations then
    .error (.invalidArgument (.primaryCount primaries.length inks.count l.combinations))
  else
    let band (value : Xyz α → α) : Band α :=
      { Band.zero l with primaries := (primaries.map value).toArray }
    .ok {
      inks
      limit := none
      order := 1
      shaped := false
      spectral := none
      instrument := none
      created := none
      bands := #[band Xyz.x, band Xyz.y, band Xyz.z] }

def check (p : Parts α) : Except (ModelError α) Unit := do
  checkInks p.inks.count
  if p.order < 1 ∨ maxOrder < p.order then .error (.invalidArgument (.order p.order))
  let spectralBands ← spectralCount p.spectral
  if p.bands.size ≠ xyzBands + spectralBands then
    .error (.invalidArgument (.bandCount p.bands.size (xyzBands + spectralBands)))
  checkBands p.layout 0 p.bands.toList
  match p.limit with
  | some l => if 0 < l then .ok () else .error (.invalidArgument (.limit l))
  | none => .ok ()

end Parts

section Limit

variable {α : Type} [Scalar α]

/-- The ink limit, when it constrains `n` channels at all. -/
def effectiveLimit (limit : Option α) (n : Nat) : Option α :=
  limit.filter fun l => decide (l < Scalar.ofNat n)

/-- Scales device values down so that their sum is at most the limit. -/
@[specialize] def clipToLimit (dev : Array α) (limit : Option α) : Array α :=
  match limit with
  | none => dev
  | some l =>
    let total := dev.foldl (· + ·) 0
    if l < total ∧ 0 < total then
      let s := l / total
      dev.map (· * s)
    else dev

end Limit

end InkModel
