import InkModel.Decimal.Reader
import InkModel.Proofs.Cgats.Token

/-! # Counts read back

The digits of a natural number are read as that number, and they form a word.
-/

namespace InkModel.Decimal

theorem digitsValue_toDigits (n : Nat) : digitsValue (Nat.toDigits 10 n) = n :=
  Nat.ofDigitChars_ten_toDigits

theorem isDigit_of_mem_repr {n : Nat} {c : Char} (h : c ∈ n.repr.toList) : c.isDigit = true := by
  rw [Nat.toList_repr] at h
  exact Nat.isDigit_of_mem_toDigits (by decide) (by decide) h

theorem readCount_repr {n : Nat} (h : n < countBound) : readCount n.repr = some n := by
  have digits : n.repr.toList.all Char.isDigit = true :=
    List.all_eq_true.mpr fun _ => isDigit_of_mem_repr
  have nonempty : n.repr.toList ≠ [] := by
    rw [Nat.toList_repr]
    exact Nat.toDigits_ne_nil
  have value : digitsValue n.repr.toList = n := by rw [Nat.toList_repr, digitsValue_toDigits]
  unfold readCount
  split
  · rename_i signed
    have : Char.isDigit '+' = true :=
      isDigit_of_mem_repr (by rw [signed]; exact List.mem_cons_self)
    exact absurd this (by decide)
  · dsimp only
    rw [List.isEmpty_eq_false_iff.mpr nonempty, digits, if_neg (by decide), value, if_pos h]

theorem isWordChar_of_isDigit {c : Char} (h : c.isDigit = true) : Cgats.isWordChar c = true := by
  have bounds : 48 ≤ c.toNat ∧ c.toNat ≤ 57 := by
    simpa [Char.isDigit, UInt32.le_iff_toNat_le] using h
  have unquoted : c ≠ Cgats.quoteChar := by
    rintro rfl
    exact absurd bounds (by decide)
  have visible : Text.isBlank c = false := by
    simp [Text.isBlank, Text.blankRanges]
    omega
  exact Cgats.isWordChar_iff.mpr ⟨visible, unquoted⟩

/-- The digits of a number form a word. -/
theorem isWord_repr (n : Nat) : Cgats.IsWord n.repr where
  nonempty := by
    rw [Nat.toList_repr]
    exact Nat.toDigits_ne_nil
  chars := fun _ hc => isWordChar_of_isDigit (isDigit_of_mem_repr hc)
  uncommented := by
    intro comment
    have : Char.isDigit Cgats.commentChar = true :=
      isDigit_of_mem_repr (List.mem_of_mem_head? comment)
    exact absurd this (by decide)

end InkModel.Decimal
