import InkModel.Scalar
import InkModel.Device.Slots

/-! # N-linear blends

A table with one entry for each combination of channels is blended by the
channel values: entry `c` has the weight of the corner `c`, a product with a
factor `v` for every channel at full and `1 - v` for every other. The slope of
a blend in one channel is again a blend: of the differences across that
channel, by the values of the others.
-/

namespace InkModel

open Scalar

variable {α : Type} [Scalar α]

/-- Multiplies the factors of a corner onto `w`, lowest channel first. -/
@[specialize] def cornerFactor (w : α) : List α → Nat → α
  | [], _ => w
  | v :: vs, comb => cornerFactor (w * (if comb % 2 = 1 then v else 1 - v)) vs (comb / 2)

/-- Weight of the corner `comb` in a blend by the channel values `v`. -/
@[inline] def cornerWeight (v : List α) (comb : Nat) : α := cornerFactor 1 v comb

/-- The blend of a table by channel values, combination 0 first. -/
@[specialize] def blend (table : Array α) (v : List α) : α :=
  sumBelow table.size fun c => table.getD c 0 * cornerWeight v c

/-- The slope of `blend table v` in the value of channel `k`. -/
@[specialize] def blendSlope (table : Array α) (v : List α) (k : Nat) : α :=
  let others := v.eraseIdx k
  sumBelow (table.size / 2) fun slot =>
    let c := slotComb k slot
    (table.getD (c ||| (1 <<< k)) 0 - table.getD c 0) * cornerWeight others slot

end InkModel
