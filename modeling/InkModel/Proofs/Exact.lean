import InkModel.Scalar
import Mathlib

/-! # Exact arithmetic

The real numbers as numbers of the colour model. The formulas of the library
are read in them to state what the formulas compute, apart from rounding.
-/

namespace InkModel

/-- The real cube root, odd on negative numbers. -/
noncomputable def realCbrt (x : ℝ) : ℝ :=
  if 0 ≤ x then x ^ (3⁻¹ : ℝ) else -(-x) ^ (3⁻¹ : ℝ)

noncomputable instance : Scalar ℝ where
  ofNat n := n
  ofScientific m s e := OfScientific.ofScientific m s e
  ltDecidable := inferInstance
  leDecidable := inferInstance
  abs x := |x|
  max x y := x ⊔ y
  min x y := x ⊓ y
  sqrt := Real.sqrt
  cbrt := realCbrt
  exp := Real.exp
  log := Real.log
  floor x := ⌊x⌋
  round x := if 0 ≤ x then ⌊x + 0.5⌋ else ⌈x - 0.5⌉
  trunc x := if 0 ≤ x then ⌊x⌋ else ⌈x⌉
  isFinite _ := true

theorem realCbrt_pow_three (x : ℝ) : realCbrt x ^ 3 = x := by
  have root {y : ℝ} (hy : 0 ≤ y) : (y ^ (3⁻¹ : ℝ)) ^ 3 = y := by
    rw [← Real.rpow_natCast, ← Real.rpow_mul hy]
    norm_num
  unfold realCbrt
  split
  · exact root ‹_›
  · rw [Odd.neg_pow (by decide), root (by linarith), neg_neg]

theorem realCbrt_eq_iff {x y : ℝ} : realCbrt x = y ↔ y ^ 3 = x := by
  constructor
  · rintro rfl
    exact realCbrt_pow_three x
  · intro h
    have odd : Odd 3 := by decide
    exact odd.strictMono_pow.injective ((realCbrt_pow_three x).trans h.symm)

namespace Scalar

/-! The literals, which the library reads through `Scalar.ofNat`. -/

theorem real_zero : @OfNat.ofNat ℝ 0 Scalar.instOfNat = 0 := Nat.cast_zero

theorem real_one : @OfNat.ofNat ℝ 1 Scalar.instOfNat = 1 := Nat.cast_one

theorem real_ofNat (n : ℕ) [n.AtLeastTwo] :
    @OfNat.ofNat ℝ n Scalar.instOfNat = OfNat.ofNat n := rfl

@[simp] theorem real_trunc_intCast (n : ℤ) : Scalar.trunc (n : ℝ) = n := by
  change (if (0 : ℝ) ≤ n then ⌊(n : ℝ)⌋ else ⌈(n : ℝ)⌉) = n
  split <;> simp

@[simp] theorem real_eqv (x y : ℝ) : eqv x y = decide (x = y) := by
  change (decide (x ≤ y) && decide (y ≤ x)) = decide (x = y)
  rw [← Bool.decide_and]
  exact decide_eq_decide.mpr le_antisymm_iff.symm

@[simp] theorem real_sq (x : ℝ) : sq x = x ^ 2 := (pow_two x).symm

theorem real_sumBelow (n : ℕ) (f : ℕ → ℝ) : sumBelow n f = ∑ i ∈ Finset.range n, f i := by
  induction n with
  | zero => exact real_zero
  | succ n ih =>
      rw [Finset.sum_range_succ, ← ih]
      simp only [sumBelow, Nat.fold_succ]

theorem real_sum (xs : List ℝ) : Scalar.sum xs = xs.sum := by
  have from_acc (acc : ℝ) : xs.foldl (· + ·) acc = acc + xs.sum := by
    induction xs generalizing acc with
    | nil => simp
    | cons x xs ih => rw [List.foldl_cons, ih, List.sum_cons, add_assoc]
  change xs.foldl (· + ·) (@OfNat.ofNat ℝ 0 Scalar.instOfNat) = _
  rw [real_zero, from_acc, zero_add]

end Scalar

/-! Sums over the entries of a table. -/

section Entries

open Finset

theorem foldl_add_eq_sum {β : Type} (xs : Array β) (f : β → ℝ) (blank : β) :
    xs.foldl (fun acc x => acc + f x) 0 = ∑ i ∈ range xs.size, f (xs.getD i blank) := by
  have from_acc (xs : List β) (acc : ℝ) : xs.foldl (fun acc x => acc + f x) acc =
      acc + ∑ i ∈ range xs.length, f (xs.getD i blank) := by
    induction xs generalizing acc with
    | nil => simp
    | cons x xs ih =>
        rw [List.foldl_cons, ih, List.length_cons, sum_range_succ', List.getD_cons_zero]
        simp only [List.getD_cons_succ]
        ring
  rw [← Array.foldl_toList, from_acc, zero_add, Array.length_toList]
  refine sum_congr rfl fun i _ => ?_
  rw [List.getD_eq_getElem?_getD, Array.getElem?_toList, Array.getD_eq_getD_getElem?]

/-- A sum over the entries of a table as one of them moves. -/
theorem hasDerivAt_sum_entry (φ : ℕ → ℝ → ℝ) {table : Array ℝ} {j : ℕ}
    (hj : j < table.size) {slope : ℝ} (h : HasDerivAt (φ j) slope table[j]) :
    HasDerivAt (fun x => ∑ i ∈ range table.size, φ i ((table.setIfInBounds j x).getD i 0))
      slope table[j] := by
  have entry (i : ℕ) : HasDerivAt (fun x => φ i ((table.setIfInBounds j x).getD i 0))
      (if i = j then slope else 0) table[j] := by
    simp only [Array.getD_eq_getD_getElem?, Array.getElem?_setIfInBounds]
    by_cases own : i = j
    · subst own
      simpa [hj] using h
    · simpa [own, Ne.symm own] using hasDerivAt_const table[j] _
  refine (HasDerivAt.fun_sum fun i _ => entry i).congr_deriv ?_
  rw [sum_ite_eq' _ j fun _ => slope, if_pos (mem_range.mpr hj)]

end Entries

/-! The least and the greatest entry of a list that begins with `acc`. -/

theorem foldl_min_isLeast (xs : List ℝ) (acc : ℝ) :
    IsLeast {x | x ∈ acc :: xs} (xs.foldl Scalar.min acc) := by
  have least : (acc :: xs).min? = some (xs.foldl Scalar.min acc) := List.min?_cons'
  obtain ⟨mem, below⟩ := List.min?_eq_some_iff.mp least
  exact ⟨mem, fun x own => below x own⟩

theorem foldl_max_isGreatest (xs : List ℝ) (acc : ℝ) :
    IsGreatest {x | x ∈ acc :: xs} (xs.foldl Scalar.max acc) := by
  have largest : (acc :: xs).max? = some (xs.foldl Scalar.max acc) := List.max?_cons'
  obtain ⟨mem, above⟩ := List.max?_eq_some_iff.mp largest
  exact ⟨mem, fun x own => above x own⟩

end InkModel
