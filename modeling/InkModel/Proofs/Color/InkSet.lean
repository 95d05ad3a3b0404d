import InkModel.Color.InkSet
import Mathlib

/-! # The letters of a set of inks

A set is the set of the inks of its bits, and its letters name it again when it
came from letters itself.
-/

namespace InkModel

/-! Characters without white space. -/

theorem dropWhile_eq_self {α : Type} {p : α → Bool} {xs : List α} (h : ∀ x ∈ xs, p x = false) :
    xs.dropWhile p = xs := by
  cases xs with
  | nil => rfl
  | cons x xs => simp [h x List.mem_cons_self]

theorem trim_eq_self {cs : List Char} (h : ∀ c ∈ cs, Text.isBlank c = false) :
    Text.trim cs = cs := by
  rw [Text.trim, dropWhile_eq_self h, dropWhile_eq_self, List.reverse_reverse]
  intro c mem
  exact h c (List.mem_reverse.mp mem)

theorem trimmed_eq_self {s : String} (h : ∀ c ∈ s.toList, Text.isBlank c = false) :
    Text.trimmed s = s := by
  rw [Text.trimmed, trim_eq_self h, String.ofList_toList]

namespace Ink

theorem position_injective : Function.Injective position := by
  intro a b same
  cases a <;> cases b <;> first | rfl | exact absurd same (by decide)

theorem mem_all (ink : Ink) : ink ∈ all := by cases ink <;> decide

theorem all_nodup : all.Nodup := by decide

theorem exists_position {j : ℕ} (h : j < all.length) : ∃ ink : Ink, ink.position = j := by
  have : ∀ j < all.length, ∃ ink ∈ all, position ink = j := by decide
  obtain ⟨ink, -, same⟩ := this j h
  exact ⟨ink, same⟩

theorem ofLetter?_letter (ink : Ink) : ofLetter? ink.letter = some ink := by
  cases ink <;> decide

theorem isBlank_letter (ink : Ink) : Text.isBlank ink.letter = false := by
  cases ink <;> decide

end Ink

namespace InkSet

theorem testBit_foldl (inks : List Ink) (b j : ℕ) :
    (inks.foldl (fun b ink => b ||| 2 ^ ink.position) b).testBit j =
      (b.testBit j || inks.any fun ink => decide (ink.position = j)) := by
  induction inks generalizing b with
  | nil => simp
  | cons ink inks ih =>
      rw [List.foldl_cons, ih, Nat.testBit_or, Nat.testBit_two_pow, List.any_cons, Bool.or_assoc]

theorem testBit_bitsOf (inks : List Ink) (ink : Ink) :
    (bitsOf inks).testBit ink.position = decide (ink ∈ inks) := by
  rw [bitsOf, testBit_foldl, Nat.zero_testBit, Bool.false_or, Bool.eq_iff_iff, List.any_eq_true]
  simp only [decide_eq_true_eq, Ink.position_injective.eq_iff, exists_eq_right]

theorem eq_of_has {s t : InkSet} (inks : ∀ ink, s.has ink = t.has ink)
    (additive : s.additive = t.additive) : s = t := by
  have bits : s.bits = t.bits := by
    apply Nat.eq_of_testBit_eq
    intro j
    by_cases inside : j < Ink.all.length
    · obtain ⟨ink, rfl⟩ := Ink.exists_position inside
      exact inks ink
    · have beyond : 2 ^ Ink.all.length ≤ 2 ^ j :=
        Nat.pow_le_pow_right (by decide) (not_lt.mp inside)
      rw [Nat.testBit_lt_two_pow (s.bits_lt.trans_le beyond),
        Nat.testBit_lt_two_pow (t.bits_lt.trans_le beyond)]
  cases s
  cases t
  simp_all

theorem mem_inks {s : InkSet} {ink : Ink} : ink ∈ s.inks ↔ s.has ink = true := by
  simp [inks, Ink.mem_all]

theorem inks_nodup (s : InkSet) : s.inks.Nodup := Ink.all_nodup.filter _

theorem readLetters_letters {α : Type} (description : String) {inks seen : List Ink}
    (nodup : (seen ++ inks).Nodup) :
    (readLetters description (inks.map Ink.letter) seen : Except (ColorError α) (List Ink)) =
      .ok (seen ++ inks) := by
  induction inks generalizing seen with
  | nil => rw [List.map_nil, readLetters, List.append_nil]
  | cons ink inks ih =>
      have fresh : seen.contains ink = false := by
        have := (List.nodup_append.mp nodup).2.2
        simpa using fun mem => this ink mem ink List.mem_cons_self rfl
      rw [List.map_cons, readLetters, Ink.ofLetter?_letter]
      dsimp only
      rw [fresh, if_neg Bool.false_ne_true, ih (by simpa using nodup)]
      simp

theorem ofInks?_eq {inks : List Ink} {s : InkSet} (h : ofInks? inks = some s) :
    inks ≠ [] ∧ (∀ ink, s.has ink = decide (ink ∈ inks)) ∧ s.additive = inks.all Ink.isLight := by
  unfold ofInks? at h
  split at h
  · rename_i nonempty
    cases h
    exact ⟨nonempty, testBit_bitsOf inks, rfl⟩
  · cases h

theorem toList_letters (s : InkSet) : s.letters.toList = s.inks.map Ink.letter :=
  String.toList_ofList

theorem isBlank_letters (s : InkSet) : ∀ c ∈ s.letters.toList, Text.isBlank c = false := by
  intro c mem
  rw [toList_letters] at mem
  obtain ⟨ink, -, rfl⟩ := List.mem_map.mp mem
  exact Ink.isBlank_letter ink

/-- Every bit of a set is that of an ink. -/
theorem exists_ink_of_testBit {s : InkSet} {j : ℕ} (bit : s.bits.testBit j = true) :
    ∃ ink ∈ s.inks, ink.position = j := by
  have inside : j < Ink.all.length := by
    by_contra beyond
    have := Nat.testBit_lt_two_pow (s.bits_lt.trans_le
      (Nat.pow_le_pow_right (by decide) (not_lt.mp beyond)))
    rw [this] at bit
    cases bit
  obtain ⟨ink, rfl⟩ := Ink.exists_position inside
  exact ⟨ink, mem_inks.mpr bit, rfl⟩

theorem inks_ne_nil (s : InkSet) : s.inks ≠ [] := by
  obtain ⟨j, bit⟩ := Nat.exists_testBit_of_ne_zero s.bits_pos.ne'
  obtain ⟨ink, mem, -⟩ := exists_ink_of_testBit bit
  exact List.ne_nil_of_mem mem

/-- The channel of an ink is one of the device. -/
theorem channelOf?_eq_some {s : InkSet} {ink : Ink} {k : ℕ}
    (h : s.channelOf? ink = some k) : s.has ink = true ∧ k < s.count := by
  unfold channelOf? at h
  split at h
  · rename_i present
    cases h
    refine ⟨present, ?_⟩
    rw [count, List.length_filter_lt_length_iff_exists]
    exact ⟨ink, mem_inks.mpr present, by simp⟩
  · cases h

/-- The set of the same inks whose letters name it: it adds light when all its inks do. -/
def named (s : InkSet) : InkSet := { s with additive := s.inks.all Ink.isLight }

theorem ofInks?_inks (s : InkSet) : ofInks? s.inks = some s.named := by
  rw [ofInks?, dif_pos s.inks_ne_nil]
  congr 1
  refine eq_of_has (fun ink => ?_) rfl
  rw [Bool.eq_iff_iff, has, testBit_bitsOf, decide_eq_true_eq, mem_inks]
  rfl

theorem ofLetters_letters {α : Type} (s : InkSet) :
    (ofLetters s.letters : Except (ColorError α) InkSet) = .ok s.named := by
  have read : (readLetters s.letters (s.inks.map Ink.letter) [] :
      Except (ColorError α) (List Ink)) = .ok s.inks :=
    readLetters_letters s.letters (by simpa using s.inks_nodup)
  unfold ofLetters
  dsimp only
  rw [trim_eq_self s.isBlank_letters, String.ofList_toList, toList_letters, read]
  dsimp only
  rw [ofInks?_inks]

/-- What letters name is named by its own letters. -/
theorem exists_ofLetters_iff {α : Type} {s : InkSet} :
    (∃ description, (ofLetters description : Except (ColorError α) InkSet) = .ok s) ↔
      s.named = s := by
  constructor
  · rintro ⟨description, h⟩
    unfold ofLetters at h
    dsimp only at h
    split at h
    · cases h
    · rename_i inks _
      split at h
      · rename_i found
        cases h
        obtain ⟨-, has, additive⟩ := ofInks?_eq found
        refine eq_of_has (fun _ => rfl) ?_
        change s.inks.all Ink.isLight = s.additive
        rw [additive, Bool.eq_iff_iff, List.all_eq_true, List.all_eq_true]
        exact forall_congr' fun ink => by rw [mem_inks, has, decide_eq_true_eq]
      · cases h
  · intro same
    exact ⟨s.letters, (ofLetters_letters s).trans (congrArg _ same)⟩

end InkSet

end InkModel
