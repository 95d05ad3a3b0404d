import InkModel.Scalar
import Mathlib

/-! # The order of doubles

Doubles other than NaN stand in a linear order, in which the two zeros share a place, and every
comparison is one of places; a comparison with NaN is false. A product does not depend on the
order of its factors, and a sum with a zero is the other summand, but for the sign of a zero.
-/

namespace InkModel.Double

open Float.Model UnpackedFloat

/-- Place of an unpacked double in the order: its class by sign and size, then its exponent and
mantissa, which fall toward the negative infinity. -/
def place : UnpackedFloat → ℤ ×ₗ ℤ ×ₗ ℤ
  | .infinity .negative => toLex (-2, toLex (0, 0))
  | .finite .negative m e _ => toLex (-1, toLex (-e, -m))
  | .zero _ | .notANumber => toLex (0, toLex (0, 0))
  | .finite .positive m e _ => toLex (1, toLex (e, m))
  | .infinity .positive => toLex (2, toLex (0, 0))

theorem compare_toLex {α β : Type} [LinearOrder α] [LinearOrder β] (a a' : α) (b b' : β) :
    compare (toLex (a, b)) (toLex (a', b')) = (compare a a').then (compare b b') := rfl

theorem compare_neg (a b : ℤ) : compare (-a) (-b) = compare b a := by
  rcases lt_trichotomy a b with h | rfl | h
  · rw [Int.compare_eq_gt.mpr h, Int.compare_eq_gt.mpr (neg_lt_neg h)]
  · simp
  · rw [Int.compare_eq_lt.mpr h, Int.compare_eq_lt.mpr (neg_lt_neg h)]

theorem compare_cast (a b : ℕ) : compare (a : ℤ) b = compare a b := by
  simp [compare, compareOfLessAndEq]

theorem compare_eq {a b : UnpackedFloat} (ha : a.isNaN = false) (hb : b.isNaN = false) :
    a.compare b = some (compare (place a) (place b)) := by
  cases a with
  | notANumber => cases ha
  | infinity s =>
      cases b with
      | notANumber => cases hb
      | infinity s' => cases s <;> cases s' <;> rfl
      | zero s' => cases s <;> rfl
      | finite s' => cases s <;> cases s' <;> rfl
  | zero s =>
      cases b with
      | notANumber => cases hb
      | infinity s' => cases s' <;> rfl
      | zero s' => rfl
      | finite s' => cases s' <;> rfl
  | finite s m e =>
      cases b with
      | notANumber => cases hb
      | infinity s' => cases s <;> cases s' <;> rfl
      | zero s' => cases s <;> rfl
      | finite s' m' e' =>
          cases s <;> cases s'
          · simp [UnpackedFloat.compare, place, compare_toLex, compare_neg, compare_cast,
              Ordering.swap_then, ← Std.OrientedOrd.eq_swap]
          · rfl
          · rfl
          · simp [UnpackedFloat.compare, place, compare_toLex, compare_cast]

theorem compare_undefined {a b : UnpackedFloat} (h : a.isNaN = true ∨ b.isNaN = true) :
    a.compare b = none := by
  rcases h with h | h
  · rw [UnpackedFloat.isNaN_iff.mp h]
    rfl
  · rw [UnpackedFloat.isNaN_iff.mp h]
    cases a with
    | infinity s => cases s <;> rfl
    | zero s => rfl
    | notANumber => rfl
    | finite s => cases s <;> rfl

/-- Place of a double in the order of all but NaN. -/
def rank (x : Float) : ℤ ×ₗ ℤ ×ₗ ℤ := place x.toModel.unpack

theorem compare_unpack (a b : Float) : a.toModel.unpack.compare b.toModel.unpack =
    if a.isNaN = true ∨ b.isNaN = true then none else some (compare (rank a) (rank b)) := by
  split
  · exact compare_undefined ‹_›
  · rename_i defined
    rw [not_or, Bool.not_eq_true, Bool.not_eq_true] at defined
    exact compare_eq defined.1 defined.2

theorem lt_iff {a b : Float} :
    a < b ↔ a.isNaN = false ∧ b.isNaN = false ∧ rank a < rank b := by
  have compared : a < b ↔ decide ((a.toModel.unpack.compare b.toModel.unpack ==
      some .lt) = true) = true := Iff.rfl
  rw [compared, decide_eq_true_iff, beq_iff_eq, compare_unpack]
  split
  · grind
  · grind [compare_lt_iff_lt]

theorem le_iff {a b : Float} :
    a ≤ b ↔ a.isNaN = false ∧ b.isNaN = false ∧ rank a ≤ rank b := by
  have compared : a ≤ b ↔ decide ((a.toModel.unpack.compare b.toModel.unpack).any
      (·.isLE) = true) = true := Iff.rfl
  rw [compared, decide_eq_true_iff, compare_unpack]
  split
  · grind
  · grind [compare_le_iff_le, Ordering.isLE_iff_ne_gt]

section Order

variable {a b c : Float}

theorem lt_trans (h : a < b) (h' : b < c) : a < c := by
  rw [lt_iff] at h h' ⊢
  exact ⟨h.1, h'.2.1, h.2.2.trans h'.2.2⟩

theorem le_of_lt (h : a < b) : a ≤ b := by
  rw [lt_iff] at h
  exact le_iff.mpr ⟨h.1, h.2.1, h.2.2.le⟩

theorem le_trans (h : a ≤ b) (h' : b ≤ c) : a ≤ c := by
  rw [le_iff] at h h' ⊢
  exact ⟨h.1, h'.2.1, h.2.2.trans h'.2.2⟩

theorem le_refl (h : a.isNaN = false) : a ≤ a := le_iff.mpr ⟨h, h, le_rfl⟩

theorem le_of_not_lt (ha : a.isNaN = false) (hb : b.isNaN = false) (h : ¬ a < b) : b ≤ a := by
  rw [lt_iff] at h
  refine le_iff.mpr ⟨hb, ha, not_lt.mp fun less => h ⟨ha, hb, less⟩⟩

theorem not_lt_of_le (h : a ≤ b) : ¬ b < a := by
  rw [le_iff] at h
  rw [lt_iff]
  exact fun less => absurd h.2.2 (not_le.mpr less.2.2)

theorem isNaN_of_isFinite (finite : a.isFinite = true) : a.isNaN = false := by
  have unpacked : a.toModel.unpack.isFinite = true := finite
  change a.toModel.unpack.isNaN = false
  cases h : a.toModel.unpack with
  | notANumber =>
      rw [h] at unpacked
      cases unpacked
  | _ => rfl

end Order

/-! Products and sums. -/

theorem eq_of_unpack {x y : Float} (h : x.toModel.unpack = y.toModel.unpack) : x = y := by
  have bits := (unpack_inj_of_valid x.toModel.valid y.toModel.valid).mp h
  obtain ⟨⟨⟨b⟩, valid⟩⟩ := x
  obtain ⟨⟨⟨b'⟩, valid'⟩⟩ := y
  obtain rfl : b = b' := bits
  rfl

theorem mul_comm (x y : Float) : x * y = y * x := by
  have sign (s s' : Sign) : s * s' = s' * s := by cases s <;> cases s' <;> rfl
  have unpacked (a b : UnpackedFloat) : a.mul .binary64 b = b.mul .binary64 a := by
    cases a <;> cases b <;> simp only [UnpackedFloat.mul, sign, Nat.mul_comm, Int.add_comm]
  exact congrArg (fun u => Float.ofModel (Float.Model.pack u)) (unpacked _ _)

theorem unpack_pack_zero (s : Sign) : (Float.Model.pack (.zero s)).unpack = .zero s :=
  unpack_packedZero

/-- The product of zero and a finite double is one of the two zeros. -/
theorem zero_mul {d : Float} (finite : d.isFinite = true) :
    ∃ s, ((0 : Float) * d).toModel.unpack = .zero s := by
  have zero : (0 : Float).toModel.unpack = .zero .positive := unpack_pack_zero .positive
  have product : ((0 : Float) * d).toModel =
      .pack ((0 : Float).toModel.unpack.mul .binary64 d.toModel.unpack) := rfl
  have unpacked : d.toModel.unpack.isFinite = true := finite
  rw [product, zero]
  cases h : d.toModel.unpack with
  | zero s => exact ⟨_, unpack_pack_zero _⟩
  | finite s m e => exact ⟨_, unpack_pack_zero _⟩
  | infinity s =>
      rw [h] at unpacked
      cases unpacked
  | notANumber =>
      rw [h] at unpacked
      cases unpacked

/-- A step of length zero stays in place, but turns the negative zero into the positive one. -/
theorem add_zero_mul {x d : Float} (unsigned : x ≠ -0) (finite : d.isFinite = true) :
    x + 0 * d = x := by
  obtain ⟨s, zero⟩ := zero_mul finite
  have sum : (x + 0 * d).toModel =
      .pack (x.toModel.unpack.add .binary64 ((0 : Float) * d).toModel.unpack) := rfl
  have same : x.toModel.unpack.add .binary64 (.zero s) = x.toModel.unpack := by
    cases h : x.toModel.unpack with
    | zero s' =>
        cases s' with
        | negative =>
            have negative : (-0 : Float).toModel.unpack = .zero .negative :=
              unpack_pack_zero .negative
            exact absurd (eq_of_unpack (h.trans negative.symm)) unsigned
        | positive => cases s <;> rfl
    | _ => rfl
  apply eq_of_unpack
  rw [sum, zero, same]
  exact congrArg (UnpackedFloat.unpack .binary64) (pack_unpack_of_valid x.toModel.valid)

end InkModel.Double
