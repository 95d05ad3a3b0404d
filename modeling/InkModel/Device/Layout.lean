import InkModel.Device.Slots

/-! # Dimensions of a model

Every band of a model has the same number of channels, transfer curve order
and kind of ink interaction. All parameter counts follow from these.
-/

namespace InkModel

def maxInks : Nat := 8

def maxBands : Nat := 61

def maxOrder : Nat := 20

/-- Number of colorimetric bands, which come before all spectral ones. -/
def xyzBands : Nat := 3

structure Layout where
  channels : Nat
  order : Nat
  shaped : Bool
  deriving Repr, DecidableEq

namespace Layout

def combinations (l : Layout) : Nat := 2 ^ l.channels

def transferCount (l : Layout) : Nat := l.channels * l.order

def slotsPerChannel (l : Layout) : Nat := if l.shaped then l.combinations / 2 else 0

def shapeCount (l : Layout) : Nat := l.channels * l.slotsPerChannel

end Layout

/-- Parameters of one output band, as flat tables. -/
structure Band (α : Type) where
  /-- Transfer coefficients, `order` for each channel, channel by channel. -/
  transfer : Array α
  /-- Shape parameters in compact slots, channel by channel; none when the
  model has no ink interaction. -/
  shape : Array α
  /-- Value of the band at every combination of channels. -/
  primaries : Array α
  deriving Repr, DecidableEq

/-- The part of a flat table that belongs to channel `m`, when every channel
has `size` entries. -/
def channelPart {α : Type} (table : Array α) (size m : Nat) : Array α :=
  table.extract (m * size) ((m + 1) * size)

namespace Band

variable {α : Type}

/-- The transfer coefficients of channel `m`. -/
def curve (b : Band α) (l : Layout) (m : Nat) : List α :=
  (channelPart b.transfer l.order m).toList

/-- The shape slots of channel `m`. -/
def slots (b : Band α) (l : Layout) (m : Nat) : Array α :=
  channelPart b.shape l.slotsPerChannel m

/-- The shape parameter of channel `m` at a combination, whose bit `m` is
ignored. -/
def shapeAt [OfNat α 0] (b : Band α) (l : Layout) (m comb : Nat) : α :=
  b.shape.getD (m * l.slotsPerChannel + shapeSlot m comb) 0

/-- Whether the tables have the sizes of a layout. -/
def Fits (b : Band α) (l : Layout) : Prop :=
  b.transfer.size = l.transferCount ∧ b.shape.size = l.shapeCount ∧
    b.primaries.size = l.combinations

end Band

end InkModel
