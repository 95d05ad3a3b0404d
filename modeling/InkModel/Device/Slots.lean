/-! # Combinations of channels and compact slots

A combination is a natural number whose bit `m` says whether channel `m` is
at full. What depends only on the other channels is stored in compact slots:
the combination with bit `m` squeezed out.
-/

-- Powers of natural numbers are read in one way, whatever else is imported.
attribute [instance (1100)] instPowNat

namespace InkModel

/-- The compact slot of a combination for channel `m`; bit `m` is ignored. -/
@[inline] def shapeSlot (m comb : Nat) : Nat :=
  (comb &&& ((1 <<< m) - 1)) ||| ((comb >>> (m + 1)) <<< m)

/-- The combination of a compact slot for channel `m`; bit `m` is clear. -/
@[inline] def slotComb (m slot : Nat) : Nat :=
  (slot &&& ((1 <<< m) - 1)) ||| ((slot >>> m) <<< (m + 1))

end InkModel
