import InkModel.Proofs.Color.InkSet

/-! # Descriptions of devices

A description names a set of inks when it holds letters of inks only and none of them twice. The
set does not depend on the order of the letters, and its own letters name it again. Its inks are the
ones in its bits from the lowest on, which is the order of the channels: the channel of an ink is
the number of ones below its bit, and the ink of a channel is found at that place of the list.
-/

namespace InkModel

/-- In an ascending list an entry stands behind the smaller ones. -/
theorem getElem?_eq_some_iff_rank {β : Type} {key : β → ℕ} {l : List β}
    (ascends : l.Pairwise fun a b => key a < key b) {x : β} {k : ℕ} :
    l[k]? = some x ↔ x ∈ l ∧ (l.filter fun y => key y < key x).length = k := by
  induction l generalizing k with
  | nil => simp
  | cons y l ih =>
      obtain ⟨first, ascends⟩ := List.pairwise_cons.mp ascends
      cases k with
      | zero =>
          constructor
          · intro here
            obtain rfl : y = x := by simpa using here
            have none_below : l.filter (fun z => key z < key y) = [] := by
              simpa using fun z mem => (first z mem).le
            simp [none_below]
          · rintro ⟨mem, none_below⟩
            rcases List.mem_cons.mp mem with rfl | later
            · rfl
            · simp [first x later] at none_below
      | succ k =>
          rw [List.getElem?_cons_succ, ih ascends]
          constructor
          · rintro ⟨later, rank⟩
            exact ⟨List.mem_cons_of_mem y later, by simp [first x later, rank]⟩
          · rintro ⟨mem, rank⟩
            rcases List.mem_cons.mp mem with rfl | later
            · have none_below : l.filter (fun z => key z < key x) = [] := by
                simpa using fun z mem => (first z mem).le
              simp [none_below] at rank
            · exact ⟨later, by simpa [first x later] using rank⟩

namespace Ink

theorem map_letter_all : all.map letter = "CMYKORGBWcmyk".toList := by decide

theorem all_ascends : all.Pairwise fun a b => a.position < b.position := by decide

theorem letter_injective : Function.Injective letter := by
  intro a b same
  have := congrArg ofLetter? same
  rwa [ofLetter?_letter, ofLetter?_letter, Option.some.injEq] at this

theorem ofLetter?_eq_some_iff {c : Char} {ink : Ink} : ofLetter? c = some ink ↔ ink.letter = c := by
  constructor
  · intro found
    simpa using List.find?_some found
  · rintro rfl
    exact ofLetter?_letter ink

theorem mem_range_letter {c : Char} : c ∈ Set.range letter ↔ c ∈ "CMYKORGBWcmyk".toList := by
  rw [← map_letter_all, List.mem_map]
  simp [mem_all]

theorem isLight_iff {ink : Ink} : ink.isLight = true ↔ ink.letter ∈ "RGBW".toList := by
  cases ink <;> decide

end Ink

namespace InkSet

/-! What letters name. -/

section Letters

variable {α : Type}

theorem readLetters_eq_ok_iff {description : String} {cs : List Char} {seen inks : List Ink}
    (nodup : seen.Nodup) :
    (readLetters description cs seen : Except (ColorError α) (List Ink)) = .ok inks ↔
      ∃ read, read.map Ink.letter = cs ∧ (seen ++ read).Nodup ∧ inks = seen ++ read := by
  constructor
  · intro h
    induction cs generalizing seen with
    | nil =>
        cases h
        exact ⟨[], rfl, by simpa using nodup, by simp⟩
    | cons c cs ih =>
        rw [readLetters] at h
        split at h
        · cases h
        · rename_i ink found
          split at h
          · cases h
          · rename_i fresh
            have nodup : (seen ++ [ink]).Nodup := by
              have fresh : ink ∉ seen := by simpa using fresh
              exact nodup.append (List.nodup_singleton ink) (by simpa using fresh)
            obtain ⟨read, same, nodup, rfl⟩ := ih nodup h
            refine ⟨ink :: read, ?_, by simpa using nodup, by simp⟩
            rw [List.map_cons, same, Ink.ofLetter?_eq_some_iff.mp found]
  · rintro ⟨read, rfl, nodup, rfl⟩
    exact readLetters_letters description nodup

theorem ofLetters_eq_ok_iff {description : String} {s : InkSet} :
    (ofLetters description : Except (ColorError α) InkSet) = .ok s ↔
      ∃ inks, inks.map Ink.letter = Text.trim description.toList ∧ inks.Nodup ∧
        ofInks? inks = some s := by
  unfold ofLetters
  dsimp only
  constructor
  · intro h
    split at h
    · cases h
    · rename_i inks read
      obtain ⟨inks, same, nodup, rfl⟩ := (readLetters_eq_ok_iff List.nodup_nil).mp read
      split at h
      · cases h
        exact ⟨inks, same, nodup, ‹_›⟩
      · cases h
  · rintro ⟨inks, same, nodup, found⟩
    have read : (readLetters (String.ofList (Text.trim description.toList))
        (Text.trim description.toList) [] : Except (ColorError α) (List Ink)) = .ok ([] ++ inks) :=
      (readLetters_eq_ok_iff List.nodup_nil).mpr ⟨inks, same, by simpa using nodup, rfl⟩
    rw [read]
    dsimp only
    rw [List.nil_append, found]

/-- What letters without repeats say about the set that they name. -/
structure Names (cs : List Char) (s : InkSet) : Prop where
  has_iff : ∀ ink, s.has ink = true ↔ ink.letter ∈ cs
  additive_iff : s.additive = true ↔ ∀ c ∈ cs, c ∈ "RGBW".toList
  letters : s.letters.toList = "CMYKORGBWcmyk".toList.filter (· ∈ cs)
  count : s.count = cs.length

theorem names_of_ofInks? {inks : List Ink} {s : InkSet} (nodup : inks.Nodup)
    (found : ofInks? inks = some s) : Names (inks.map Ink.letter) s := by
  obtain ⟨-, has, additive⟩ := ofInks?_eq found
  have has (ink : Ink) : s.has ink = true ↔ ink.letter ∈ inks.map Ink.letter := by
    rw [has, decide_eq_true_eq, List.mem_map_of_injective Ink.letter_injective]
  refine ⟨has, ?_, ?_, ?_⟩
  · rw [additive, List.all_eq_true, List.forall_mem_map]
    exact forall₂_congr fun ink _ => Ink.isLight_iff
  · rw [toList_letters, InkSet.inks, ← Ink.map_letter_all, List.filter_map]
    congr 1
    refine List.filter_congr fun ink _ => ?_
    rw [Bool.eq_iff_iff, has, Function.comp_apply, decide_eq_true_eq]
  · have perm : s.inks.Perm inks := by
      rw [List.perm_ext_iff_of_nodup s.inks_nodup nodup]
      intro ink
      rw [mem_inks, has, List.mem_map_of_injective Ink.letter_injective]
    rw [InkSet.count, perm.length_eq, List.length_map]

theorem names_of_ofLetters {description : String} {s : InkSet}
    (read : (ofLetters description : Except (ColorError α) InkSet) = .ok s) :
    Names (Text.trim description.toList) s := by
  obtain ⟨inks, same, nodup, found⟩ := ofLetters_eq_ok_iff.mp read
  exact same ▸ names_of_ofInks? nodup found

theorem Names.eq {cs cs' : List Char} {s s' : InkSet} (names : Names cs s) (names' : Names cs' s')
    (same : ∀ c, c ∈ cs ↔ c ∈ cs') : s = s' := by
  refine eq_of_has (fun ink => ?_) ?_
  · rw [Bool.eq_iff_iff, names.has_iff, names'.has_iff, same]
  · rw [Bool.eq_iff_iff, names.additive_iff, names'.additive_iff]
    simp only [same]

theorem exists_ofLetters {description : String} :
    (∃ s, (ofLetters description : Except (ColorError α) InkSet) = .ok s) ↔
      Text.trim description.toList ≠ [] ∧
      (∀ c ∈ Text.trim description.toList, c ∈ "CMYKORGBWcmyk".toList) ∧
      (Text.trim description.toList).Nodup := by
  simp only [ofLetters_eq_ok_iff]
  constructor
  · rintro ⟨s, inks, same, nodup, found⟩
    obtain ⟨nonempty, -⟩ := ofInks?_eq found
    rw [← same]
    refine ⟨by simpa using nonempty, ?_, nodup.map Ink.letter_injective⟩
    rw [List.forall_mem_map]
    exact fun ink _ => Ink.mem_range_letter.mp ⟨ink, rfl⟩
  · rintro ⟨nonempty, letters, nodup⟩
    have named : Text.trim description.toList ∈ Set.range (List.map Ink.letter) := by
      rw [Set.range_list_map]
      exact fun c mem => Ink.mem_range_letter.mpr (letters c mem)
    obtain ⟨inks, same⟩ := named
    rw [← same] at nonempty nodup
    have nonempty : inks ≠ [] := by simpa using nonempty
    exact ⟨_, inks, same, nodup.of_map, by rw [ofInks?, dif_pos nonempty]⟩

end Letters

/-! Channels. -/

section Channels

theorem inks_ascend (s : InkSet) : s.inks.Pairwise fun a b => a.position < b.position :=
  Ink.all_ascends.filter _

theorem inkAt?_eq_some_iff {s : InkSet} {ink : Ink} {k : ℕ} :
    s.inkAt? k = some ink ↔ s.channelOf? ink = some k := by
  rw [inkAt?, getElem?_eq_some_iff_rank s.inks_ascend, mem_inks, channelOf?]
  split <;> simp [*]

theorem position_lt {s : InkSet} {a b : Ink} {i j : ℕ} (ha : s.inkAt? i = some a)
    (hb : s.inkAt? j = some b) (less : i < j) : a.position < b.position := by
  obtain ⟨hi, rfl⟩ := List.getElem?_eq_some_iff.mp ha
  obtain ⟨hj, rfl⟩ := List.getElem?_eq_some_iff.mp hb
  exact List.pairwise_iff_getElem.mp s.inks_ascend i j hi hj less

/-- The inks are the ones in the bits, from the lowest on. -/
theorem map_position_inks (s : InkSet) : s.inks.map Ink.position = s.bits.bitIndices := by
  have ascends : (s.inks.map Ink.position).SortedLT :=
    (List.pairwise_map.mpr s.inks_ascend).sortedLT
  refine ascends.eq_of_mem_iff Nat.bitIndices_sorted fun j => ?_
  rw [Nat.mem_bitIndices, List.mem_map]
  constructor
  · rintro ⟨ink, mem, rfl⟩
    exact mem_inks.mp mem
  · exact exists_ink_of_testBit

theorem bitIndices_mod (n p : ℕ) : (n % 2 ^ p).bitIndices = n.bitIndices.filter (· < p) := by
  have ascends : (n.bitIndices.filter (· < p)).SortedLT :=
    (Nat.bitIndices_sorted.pairwise.filter _).sortedLT
  refine Nat.bitIndices_sorted.eq_of_mem_iff ascends fun j => ?_
  simp [Nat.testBit_mod_two_pow, and_comm]

/-- Channels are numbered by the ones in the bits, from the lowest on: in the list of the ones, as
their number below a bit, and back. -/
structure ChannelOrder (s : InkSet) : Prop where
  ones : s.inks.map Ink.position = s.bits.bitIndices
  count : s.count = s.bits.bitIndices.length
  channel : ∀ ink, s.channelOf? ink =
    if s.has ink then some (s.bits % 2 ^ ink.position).bitIndices.length else none
  inverse : ∀ ink k, s.channelOf? ink = some k ↔ s.inkAt? k = some ink
  defined : ∀ ink, (∃ k, s.channelOf? ink = some k) ↔ s.has ink = true
  inside : ∀ k, (∃ ink, s.inkAt? k = some ink) ↔ k < s.count
  monotone : ∀ a b i j, s.channelOf? a = some i → s.channelOf? b = some j →
    (i < j ↔ a.position < b.position)

theorem channelOrder (s : InkSet) : s.ChannelOrder where
  ones := s.map_position_inks
  count := by rw [← map_position_inks, List.length_map, InkSet.count]
  channel ink := by
    rw [channelOf?, bitIndices_mod, ← map_position_inks, List.filter_map, List.length_map]
    rfl
  inverse _ _ := inkAt?_eq_some_iff.symm
  defined ink := by
    rw [channelOf?]
    split <;> simp [*]
  inside k := by
    rw [InkSet.count, ← Option.isSome_iff_exists, inkAt?, isSome_getElem?]
  monotone a b i j ha hb := by
    rw [← inkAt?_eq_some_iff] at ha hb
    refine ⟨position_lt ha hb, fun less => ?_⟩
    rcases lt_trichotomy i j with before | rfl | behind
    · exact before
    · obtain rfl : a = b := Option.some.inj (ha.symm.trans hb)
      exact absurd less (lt_irrefl _)
    · exact absurd less (position_lt hb ha behind).not_gt

end Channels

/-- A description is read when it holds letters of inks only, at least one and none twice. Then it
names the set of their inks, which is the same for every order of the letters and has them in the
order of its channels; the letters of the set name it again. -/
theorem ofLetters_canonical {α : Type} :
    (∀ description : String,
      (∃ s, (ofLetters description : Except (ColorError α) InkSet) = .ok s) ↔
        Text.trim description.toList ≠ [] ∧
        (∀ c ∈ Text.trim description.toList, c ∈ "CMYKORGBWcmyk".toList) ∧
        (Text.trim description.toList).Nodup) ∧
    (∀ description s, (ofLetters description : Except (ColorError α) InkSet) = .ok s →
      Names (Text.trim description.toList) s ∧
        (ofLetters s.letters : Except (ColorError α) InkSet) = .ok s) ∧
    (∀ description description' s s',
      (ofLetters description : Except (ColorError α) InkSet) = .ok s →
      (ofLetters description' : Except (ColorError α) InkSet) = .ok s' →
      (∀ c, c ∈ Text.trim description.toList ↔ c ∈ Text.trim description'.toList) → s = s') ∧
    ∀ s : InkSet, s.ChannelOrder := by
  refine ⟨fun _ => exists_ofLetters, fun description s read => ?_, fun _ _ s s' read read' => ?_,
    channelOrder⟩
  · have named : s.named = s := (exists_ofLetters_iff (α := α)).mp ⟨description, read⟩
    exact ⟨names_of_ofLetters read, (ofLetters_letters s).trans (congrArg _ named)⟩
  · exact (names_of_ofLetters read).eq (names_of_ofLetters read')

theorem ofLetters_canonical_cmyk :
    ∃ s : InkSet, (ofLetters " YKMC" : Except (ColorError ℝ) InkSet) = .ok s ∧
      (ofLetters "CMYK" : Except (ColorError ℝ) InkSet) = .ok s ∧
      (ofLetters s.letters : Except (ColorError ℝ) InkSet) = .ok s ∧
      s.letters.toList = "CMYK".toList ∧ s.additive = false ∧ s.count = 4 := by
  obtain ⟨accepted, named, same, -⟩ := ofLetters_canonical (α := ℝ)
  have left : Text.trim " YKMC".toList = ['Y', 'K', 'M', 'C'] := by decide
  have right : Text.trim "CMYK".toList = ['C', 'M', 'Y', 'K'] := by decide
  obtain ⟨s, read⟩ := (accepted " YKMC").mpr (by rw [left]; simp)
  obtain ⟨s', read'⟩ := (accepted "CMYK").mpr (by rw [right]; simp)
  obtain rfl : s = s' := same _ _ s s' read read' fun c => by
    simp only [left, right, List.mem_cons, List.not_mem_nil]
    tauto
  obtain ⟨names, again⟩ := named _ s read
  rw [left] at names
  have dark : ¬s.additive = true := by
    rw [names.additive_iff]
    simp
  refine ⟨s, read, read', again, ?_, by simpa using dark, names.count⟩
  rw [names.letters]
  simp

end InkSet

end InkModel
