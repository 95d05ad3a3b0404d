import InkModel.Interpolation

/-! # Harmonic transfer curves

A transfer curve is a chain of harmonics. Harmonic `o` splits `[0, 1]` into
`o + 1` sections and applies a rational bias within each, with a sign that
alternates from section to section so that neighbours join smoothly. A
harmonic whose coefficient is zero leaves the value exactly as it is.
-/

namespace InkModel

open Scalar

variable {α : Type} [Scalar α]

@[inline] def isOddSection (sec : α) : Bool := Scalar.trunc sec % 2 ≠ 0

/-- The transfer curve that begins with harmonic `o`. -/
@[specialize] def transferFrom (o : Nat) : List α → α → α
  | [], x => x
  | c :: cs, x =>
    if eqv c 0 then transferFrom (o + 1) cs x
    else
      let sections : α := Scalar.ofNat (o + 1)
      let scaled := x * sections
      let sec := Scalar.floor scaled
      let g := if isOddSection sec then -c else c
      transferFrom (o + 1) cs ((rationalBias g (scaled - sec) + sec) / sections)

/-- The transfer curve of a list of harmonic coefficients. -/
@[inline] def transfer (coef : List α) (x : α) : α := transferFrom 0 coef x

structure TransferPartials (α : Type) where
  value : α
  slope : α
  /-- Partial derivative in each coefficient of the curve so far. What stands
  behind them in the table is from before. -/
  coefSlopes : Array α

/-- Scales the first `n` entries of a table. -/
@[specialize] def scaleBelow (n : Nat) (factor : α) (table : Array α) : Array α :=
  table.mapIdx fun i x => if i < n then x * factor else x

/-- Adds harmonic `o` with coefficient `c` to a curve. The slopes of the earlier
coefficients pass through the new harmonic. -/
@[specialize] def TransferPartials.addHarmonic (t : TransferPartials α) (o : Nat) (c : α) :
    TransferPartials α :=
  let sections : α := Scalar.ofNat (o + 1)
  let scaled := t.value * sections
  let sec := Scalar.floor scaled
  let odd := isOddSection sec
  let b := rationalBiasPartials (if odd then -c else c) (scaled - sec)
  let own := (if odd then -b.strengthSlope else b.strengthSlope) / sections
  if eqv c 0 then
    { t with coefSlopes := t.coefSlopes.setIfInBounds o own }
  else
    { value := (b.value + sec) / sections
      slope := t.slope * b.slope
      coefSlopes := (scaleBelow o b.slope t.coefSlopes).setIfInBounds o own }

/-- Continues a curve with the harmonics from `o` on. -/
@[specialize] def transferPartialsFrom (o : Nat) :
    List α → TransferPartials α → TransferPartials α
  | [], t => t
  | c :: cs, t => transferPartialsFrom (o + 1) cs (t.addHarmonic o c)

/-- The transfer curve with its slopes in the argument and in every
coefficient, the latter written over `table`. -/
@[specialize] def transferPartialsOver (table : Array α) (coef : List α) (x : α) :
    TransferPartials α :=
  transferPartialsFrom 0 coef ⟨x, 1, table⟩

/-- The transfer curve with its slopes in the argument and in every
coefficient. -/
@[specialize] def transferPartials (coef : List α) (x : α) : TransferPartials α :=
  transferPartialsOver (Array.replicate coef.length 0) coef x

end InkModel
