import InkModel.Device.Blend
import InkModel.Device.Layout
import InkModel.Device.Transfer

/-! # Forward model of one band

From device values to the value of one output band:

1. each channel value passes its own transfer curve;
2. with ink interaction, each channel is warped by a rational bias whose
   strength is the blend of its shape slots over the other channels;
3. the primaries are blended by the warped channel values.

`evaluate` gives the value, `gradient` all partial derivatives. A fit takes the
gradients of many points one after another: `gradientOver` writes each over the
tables of the one before.
-/

namespace InkModel

open Scalar

variable {α : Type} [Scalar α]

/-- The device value of channel `m`, clamped to `[0, 1]`. -/
@[inline] def channelValue (dev : Array α) (m : Nat) : α := saturate (dev.getD m 0)

@[specialize] def transferred (l : Layout) (b : Band α) (dev : Array α) : List α :=
  (List.range l.channels).map fun m => transfer (b.curve l m) (channelValue dev m)

/-- Strength of the ink interaction on channel `m`. -/
@[specialize] def shapeStrength (l : Layout) (b : Band α) (tv : List α) (m : Nat) : α :=
  blend (b.slots l m) (tv.eraseIdx m)

/-- The transferred channel values after ink interaction. -/
@[specialize] def warped (l : Layout) (b : Band α) (tv : List α) : List α :=
  if l.shaped then
    tv.mapIdx fun m t => rationalBias (shapeStrength l b tv m) t
  else tv

@[specialize] def evaluate (l : Layout) (b : Band α) (dev : Array α) : α :=
  blend b.primaries (warped l b (transferred l b dev))

/-- A band value with all its partial derivatives, laid out like the
parameters of the band. -/
@[ext] structure Gradient (α : Type) where
  value : α
  dev : Array α
  transfer : Array α
  shape : Array α
  primaries : Array α

namespace Gradient

def zero (l : Layout) : Gradient α :=
  ⟨0, Array.replicate l.channels 0, Array.replicate l.transferCount 0,
    Array.replicate l.shapeCount 0, Array.replicate l.combinations 0⟩

/-- Whether the tables have the sizes of a layout. -/
def Fits (g : Gradient α) (l : Layout) : Prop :=
  g.dev.size = l.channels ∧ g.transfer.size = l.transferCount ∧
    g.shape.size = l.shapeCount ∧ g.primaries.size = l.combinations

end Gradient

structure ForwardPass (α : Type) where
  transferred : List α
  /-- Ink interaction of each channel, with its slopes. -/
  warps : Array (BiasPartials α)
  /-- Channel values after ink interaction. -/
  warped : List α
  /-- Slope of the band value in each warped channel value. -/
  outSlopes : Array α

@[specialize] def forwardPass (l : Layout) (b : Band α) (dev : Array α) : ForwardPass α :=
  let tv := transferred l b dev
  let warps : Array (BiasPartials α) := tv.toArray.mapIdx fun m t =>
    if l.shaped then rationalBiasPartials (shapeStrength l b tv m) t else ⟨t, 1, 0⟩
  let u := (warps.map (·.value)).toList
  ⟨tv, warps, u, (Array.range l.channels).map (blendSlope b.primaries u)⟩

namespace ForwardPass

/-- The ink interaction of channel `m`. -/
@[inline] def warp (p : ForwardPass α) (m : Nat) : BiasPartials α := p.warps.getD m ⟨0, 1, 0⟩

/-- How far the band value follows the interaction strength of channel `m`. -/
@[inline] def strengthEffect (p : ForwardPass α) (m : Nat) : α :=
  p.outSlopes.getD m 0 * (p.warp m).strengthSlope

@[specialize] def value (b : Band α) (p : ForwardPass α) : α := blend b.primaries p.warped

/-- Slope of the interaction strength of channel `m` in the transferred value
of another channel `k`. -/
@[specialize] def strengthSlope (l : Layout) (b : Band α) (p : ForwardPass α) (m k : Nat) : α :=
  if l.shaped then
    blendSlope (b.slots l m) (p.transferred.eraseIdx m) (if k < m then k else k - 1)
  else 0

/-- Slope of the band value in the transferred value of channel `k`: through
its own warp, and through the interaction with every other channel. -/
@[specialize] def transferredSlope (l : Layout) (b : Band α) (p : ForwardPass α) (k : Nat) : α :=
  Nat.fold l.channels (fun m _ acc =>
    if m = k then acc else acc + p.strengthEffect m * p.strengthSlope l b m k)
    (p.outSlopes.getD k 0 * (p.warp k).slope)

/-- Writes the band value with all its partial derivatives over `old`, whose
tables have the sizes of the layout. -/
@[specialize] def writeOver (l : Layout) (b : Band α) (dev : Array α) (p : ForwardPass α)
    (old : Gradient α) : Gradient α :=
  let totals := (Array.range l.channels).map (p.transferredSlope l b)
  let curves := (Array.range l.channels).map fun k =>
    transferPartialsOver (channelPart old.transfer l.order k) (b.curve l k) (channelValue dev k)
  { value := p.value b
    dev := old.dev.mapIdx fun k _ =>
      totals.getD k 0 * ((curves[k]?).map (·.slope)).getD 0
    transfer := (Array.zip curves totals).flatMap fun (c, total) => c.coefSlopes.map (· * total)
    shape := (Array.range l.channels).flatMap fun m =>
      let f := p.strengthEffect m
      let others := p.transferred.eraseIdx m
      (channelPart old.shape l.slotsPerChannel m).mapIdx fun slot _ => f * cornerWeight others slot
    primaries := old.primaries.mapIdx fun c _ => cornerWeight p.warped c }

end ForwardPass

/-- The band value with all its partial derivatives, written over `old`. -/
@[specialize] def gradientOver (l : Layout) (b : Band α) (dev : Array α) (old : Gradient α) :
    Gradient α :=
  (forwardPass l b dev).writeOver l b dev old

@[specialize] def gradient (l : Layout) (b : Band α) (dev : Array α) : Gradient α :=
  gradientOver l b dev (.zero l)

end InkModel
