import InkModel.Profile.File
import InkModel.Proofs.Decimal.Count
import InkModel.Proofs.Device.Layout
import InkModel.Proofs.Device.Slots

/-! # The ids of parameters

A layout gives every parameter an id of its own. The slots of a channel, expanded
one after another, are the combinations without that channel in their order.
-/

namespace InkModel.ModelFile

/-- A bar between two numbers says where the first one ends. -/
theorem repr_bar_injective {m i m' i' : ℕ}
    (h : m.repr.toList ++ '_' :: i.repr.toList = m'.repr.toList ++ '_' :: i'.repr.toList) :
    m = m' ∧ i = i' := by
  have digits (n : ℕ) : ∀ c ∈ n.repr.toList, c.isDigit = true :=
    fun _ => Decimal.isDigit_of_mem_repr
  have bar (n : ℕ) : ∀ c, ('_' :: n.repr.toList).head? = some c → c.isDigit = false := by
    intro c first
    cases first
    decide
  have before := congrArg (List.takeWhile Char.isDigit) h
  have behind := congrArg (List.dropWhile Char.isDigit) h
  rw [(Cgats.takeWhile_append_stop (digits m) (bar i)).1,
    (Cgats.takeWhile_append_stop (digits m') (bar i')).1] at before
  rw [(Cgats.takeWhile_append_stop (digits m) (bar i)).2,
    (Cgats.takeWhile_append_stop (digits m') (bar i')).2] at behind
  exact ⟨Nat.repr_injective (String.toList_inj.mp before),
    Nat.repr_injective (String.toList_inj.mp (List.cons.inj behind).2)⟩

theorem channelId_injective {letter : String} {m i m' i' : ℕ}
    (h : letter ++ m.repr ++ "_" ++ i.repr = letter ++ m'.repr ++ "_" ++ i'.repr) :
    m = m' ∧ i = i' := by
  simp only [String.append_assoc, String.append_right_inj] at h
  have text := congrArg String.toList h
  simp only [String.toList_append] at text
  exact repr_bar_injective text

theorem transferId_injective {m o m' o' : ℕ} (h : transferId m o = transferId m' o') :
    m = m' ∧ o = o' := channelId_injective h

theorem shapeId_injective {m c m' c' : ℕ} (h : shapeId m c = shapeId m' c') :
    m = m' ∧ c = c' := channelId_injective h

theorem primaryId_injective : Function.Injective primaryId := by
  intro c c' h
  exact Nat.repr_injective ((String.append_right_inj "c_").mp h)

/-- Ids that tell channels and places apart. -/
theorem channelIds_nodup {n : ℕ} {places : ℕ → List ℕ} {id : ℕ → ℕ → String}
    (injective : ∀ {m i m' i'}, id m i = id m' i' → m = m' ∧ i = i')
    (distinct : ∀ m, (places m).Nodup) :
    ((List.range n).flatMap fun m => (places m).map (id m)).Nodup := by
  rw [List.nodup_flatMap]
  constructor
  · intro m _
    exact (distinct m).map fun i i' same => (injective same).2
  · refine List.nodup_range.imp fun {m m'} other => ?_
    intro s mem mem'
    obtain ⟨i, _, rfl⟩ := List.mem_map.mp mem
    obtain ⟨i', _, same⟩ := List.mem_map.mp mem'
    exact other (injective same).1.symm

/-- The combinations without a channel, slot by slot. -/
theorem combinationsWithout_eq {n m : ℕ} (hm : m < n) :
    combinationsWithout n m = (List.range (2 ^ (n - 1))).map (slotComb m) := by
  have slots := slotComb_bijOn hm
  have entry (c : ℕ) : c ∈ combinationsWithout n m ↔ c < 2 ^ n ∧ c.testBit m = false := by
    simp [combinationsWithout]
  apply List.Subset.antisymm_of_sortedLT
  · intro c mem
    obtain ⟨slot, inside, rfl⟩ := slots.surjOn ((entry c).mp mem)
    exact List.mem_map_of_mem (List.mem_range.mpr inside)
  · intro c mem
    obtain ⟨slot, inside, rfl⟩ := List.mem_map.mp mem
    exact (entry _).mpr (slots.mapsTo (List.mem_range.mp inside))
  · exact (List.pairwise_lt_range.filter _).sortedLT
  · exact (List.pairwise_lt_range.map _ fun _ _ less => slotComb_strictMono m less).sortedLT

/-- The ids of all parameters. -/
def ids (l : Layout) : List String := transferIds l ++ shapeIds l ++ primaryIds l

theorem transferIds_nodup (l : Layout) : (transferIds l).Nodup :=
  channelIds_nodup transferId_injective fun _ => List.nodup_range

theorem shapeIds_nodup (l : Layout) : (shapeIds l).Nodup := by
  rw [shapeIds]
  split
  · exact channelIds_nodup shapeId_injective fun m => List.nodup_range.filter _
  · exact List.nodup_nil

theorem primaryIds_nodup (l : Layout) : (primaryIds l).Nodup :=
  List.nodup_range.map primaryId_injective

theorem mem_transferIds {l : Layout} {id : String} (h : id ∈ transferIds l) :
    ∃ m o, id = transferId m o := by
  obtain ⟨m, _, mem⟩ := List.mem_flatMap.mp h
  obtain ⟨o, _, rfl⟩ := List.mem_map.mp mem
  exact ⟨m, o, rfl⟩

theorem mem_shapeIds {l : Layout} {id : String} (h : id ∈ shapeIds l) :
    ∃ m c, id = shapeId m c := by
  rw [shapeIds] at h
  split at h
  · obtain ⟨m, _, mem⟩ := List.mem_flatMap.mp h
    obtain ⟨c, _, rfl⟩ := List.mem_map.mp mem
    exact ⟨m, c, rfl⟩
  · cases h

theorem mem_primaryIds {l : Layout} {id : String} (h : id ∈ primaryIds l) :
    ∃ c, id = primaryId c := by
  obtain ⟨c, _, rfl⟩ := List.mem_map.mp h
  exact ⟨c, rfl⟩

/-- The first letter of an id says which table it is of. -/
theorem ids_nodup (l : Layout) : (ids l).Nodup := by
  have transferHead (m o : ℕ) : (transferId m o).toList.head? = some 't' := by simp [transferId]
  have shapeHead (m c : ℕ) : (shapeId m c).toList.head? = some 's' := by simp [shapeId]
  have primaryHead (c : ℕ) : (primaryId c).toList.head? = some 'c' := by simp [primaryId]
  rw [ids, List.nodup_append', List.nodup_append']
  refine ⟨⟨transferIds_nodup l, shapeIds_nodup l, ?_⟩, primaryIds_nodup l, ?_⟩
  · intro id transfer shape
    obtain ⟨m, o, rfl⟩ := mem_transferIds transfer
    obtain ⟨m', c, same⟩ := mem_shapeIds shape
    have := shapeHead m' c
    rw [← same, transferHead] at this
    exact absurd this (by decide)
  · intro id others primary
    obtain ⟨c, rfl⟩ := mem_primaryIds primary
    have head := primaryHead c
    rcases List.mem_append.mp others with transfer | shape
    · obtain ⟨m, o, same⟩ := mem_transferIds transfer
      rw [same, transferHead] at head
      exact absurd head (by decide)
    · obtain ⟨m, c', same⟩ := mem_shapeIds shape
      rw [same, shapeHead] at head
      exact absurd head (by decide)

theorem isQuotable_id {l : Layout} {id : String} (h : id ∈ ids l) : Cgats.IsQuotable id := by
  have number (n : ℕ) : Cgats.IsQuotable n.repr := (Decimal.isWord_repr n).isQuotable
  have channel {letter : String} (quotable : Cgats.IsQuotable letter) (m i : ℕ) :
      Cgats.IsQuotable (letter ++ m.repr ++ "_" ++ i.repr) :=
    ((quotable.append (number m)).append (by decide)).append (number i)
  rcases List.mem_append.mp h with others | primary
  · rcases List.mem_append.mp others with transfer | shape
    · obtain ⟨m, o, rfl⟩ := mem_transferIds transfer
      exact channel (by decide) m o
    · obtain ⟨m, c, rfl⟩ := mem_shapeIds shape
      exact channel (by decide) m c
  · obtain ⟨c, rfl⟩ := mem_primaryIds primary
    exact Cgats.IsQuotable.append (by decide) (number c)

/-! How many there are. -/

/-- The ids of the shape parameters, slot by slot. -/
theorem shapeIds_eq (l : Layout) :
    shapeIds l = (List.range l.channels).flatMap fun m =>
      (List.range l.slotsPerChannel).map fun slot => shapeId m (slotComb m slot) := by
  rw [shapeIds]
  by_cases shaped : l.shaped = true
  · rw [if_pos shaped]
    refine List.flatMap_congr fun m hm => ?_
    have hm := List.mem_range.mp hm
    rw [combinationsWithout_eq hm, slotsPerChannel_eq hm shaped, List.map_map]
    rfl
  · rw [if_neg shaped, Layout.slotsPerChannel, if_neg shaped]
    simp

theorem transferIds_length (l : Layout) : (transferIds l).length = l.transferCount := by
  simp [transferIds, Layout.transferCount]

theorem shapeIds_length (l : Layout) : (shapeIds l).length = l.shapeCount := by
  simp [shapeIds_eq, Layout.shapeCount]

theorem primaryIds_length (l : Layout) : (primaryIds l).length = l.combinations := by
  simp [primaryIds]

end InkModel.ModelFile
