import InkModel.Proofs.Profile.RoundTrip

/-! # Shape parameters by name and by place

A file names a shape parameter by its channel and a combination of the other channels. The writer
goes through the slots of a channel and expands each; the reader goes through all combinations and
skips those with the channel. For any number of channels both come to the same names in the same
order, and the place of a name among them is the place of the parameter in the table of a band.
-/

namespace InkModel

/-- Slots and combinations of channel `m`, each way. -/
structure IsSlotNumbering (m : ℕ) (slot comb : ℕ → ℕ) : Prop where
  slot_comb : ∀ i, slot (comb i) = i
  comb_slot : ∀ c, comb (slot c) = withoutChannel m c
  clear : ∀ i, (comb i).testBit m = false
  comb_strictMono : StrictMono comb
  slot_strictMono : StrictMonoOn slot {c | c.testBit m = false}
  onto : ∀ n > m,
    Set.BijOn comb (Set.Iio (2 ^ (n - 1))) {c | c < 2 ^ n ∧ c.testBit m = false}

theorem shapeSlot_isSlotNumbering (m : ℕ) : IsSlotNumbering m (shapeSlot m) (slotComb m) where
  slot_comb := shapeSlot_slotComb m
  comb_slot := slotComb_shapeSlot_eq m
  clear := testBit_slotComb_self m
  comb_strictMono := slotComb_strictMono m
  slot_strictMono := shapeSlot_strictMonoOn m
  onto := fun _ => slotComb_bijOn

namespace Layout

/-- Whether a channel of a layout has a shape parameter for a combination of the others. -/
structure HasShape (l : Layout) (m c : ℕ) : Prop where
  shaped : l.shaped = true
  channel : m < l.channels
  inside : c < l.combinations
  clear : c.testBit m = false

/-- The place of a shape parameter in the table of a band. -/
def shapePlace (l : Layout) (m c : ℕ) : ℕ := m * l.slotsPerChannel + shapeSlot m c

theorem HasShape.slot_lt {l : Layout} {m c : ℕ} (has : l.HasShape m c) :
    shapeSlot m c < l.slotsPerChannel := by
  rw [slotsPerChannel_eq has.channel has.shaped]
  exact shapeSlot_lt has.channel has.inside

end Layout

namespace ModelFile

open Cgats

/-- The names of the shape parameters as they are written, slot by slot. -/
def slotIds (l : Layout) : List String :=
  (List.range l.channels).flatMap fun m =>
    (List.range l.slotsPerChannel).map fun slot => shapeId m (slotComb m slot)

/-- The place of a name is that of its parameter. -/
theorem shapeIds_getElem? {l : Layout} {m c : ℕ} (has : l.HasShape m c) :
    (shapeIds l)[l.shapePlace m c]? = some (shapeId m c) := by
  have numbered : (l.shapePlace m c, shapeId m c) ∈ (shapeIds l).mapIdx Prod.mk := by
    rw [shapeIds_eq, ← flatMap_eq_mapIdx, List.mem_flatMap]
    refine ⟨m, List.mem_range.mpr has.channel, List.mem_map.mpr ⟨shapeSlot m c, ?_, ?_⟩⟩
    · exact List.mem_range.mpr has.slot_lt
    · rw [slotComb_shapeSlot has.clear, Layout.shapePlace]
  obtain ⟨i, inside, same⟩ := List.mem_mapIdx.mp numbered
  rw [Prod.mk.injEq] at same
  rw [← same.1, List.getElem?_eq_getElem inside, same.2]

section Writing

variable {α : Type} [Scalar α]

theorem map_rowId_shapeRows (p : Parts α) :
    (shapeRows p).map rowId = (slotIds p.layout).map some := by
  rw [shapeRows_eq, map_rowId_mapIdx, shapeIds_eq, slotIds]

theorem shapeRows_getElem? {p : Parts α} {m c : ℕ} (has : p.layout.HasShape m c) :
    (shapeRows p)[p.layout.shapePlace m c]? =
      some (parameterRow (shapeId m c) (p.bands.toList.map fun b => b.shapeAt p.layout m c)) := by
  rw [shapeRows_eq, List.getElem?_mapIdx, shapeIds_getElem? has]
  rfl

end Writing

section Reading

variable {α : Type} [Scalar α]

/-- The values that are read under the name of a parameter come to its place in every band. -/
theorem bandColumn_shapeIds {l : Layout} {m c : ℕ} (has : l.HasShape m c)
    {values : String → Except (FormatFault α) (List α)} {rows : Array (Array α)}
    (read : parameterTable values (shapeIds l) = .ok rows) :
    ∃ entry, values (shapeId m c) = .ok entry ∧
      ∀ j, (bandColumn rows j)[l.shapePlace m c]? = some (entry.getD j 0) := by
  obtain ⟨lists, run, rfl⟩ := map_eq_ok_iff.mp read
  obtain ⟨entry, here, found⟩ :=
    exists_getElem?_of_forall₂ (mapM_eq_ok_iff.mp run) (shapeIds_getElem? has)
  refine ⟨entry, found, fun j => ?_⟩
  simp [bandColumn, here]

variable [Numeral α]

/-- The columns of a table that parameters are read from: that of the names and those of the
bands. -/
structure ReadsColumns (t : Table α) (p : Parts α) (names : ℕ) (bands : List ℕ) : Prop where
  named : column t idField = .ok names
  found : ∃ (enc : ColorEncoding) (colors others : List ℕ),
    enc.fields.mapM (column t) = .ok colors ∧ spectralColumns t p.spectral = .ok others ∧
      bands = colors ++ others
  count : bands.length = p.bands.size

/-- The shape parameters of a model that is read, by their names in the table. -/
theorem readParts_shapeAt {t : Table α} {p : Parts α} (read : readParts t = .ok p) :
    ∃ names bands, ReadsColumns t p names bands ∧ ∀ m c, p.layout.HasShape m c →
      ∃ entry, parameter t (idIndex t names) bands (shapeId m c) = .ok entry ∧
        ∀ j (inside : j < p.bands.size), p.bands[j].shapeAt p.layout m c = entry.getD j 0 := by
  simp only [readParts, bind_eq_ok_iff] at read
  obtain ⟨inks, -, order, -, shaped, -, limit, -, spectral, -, names, named, colors, colored,
    others, more, transfer, -, shape, shapes, primaries, -, done⟩ := read
  cases done
  refine ⟨names, colors ++ others, ⟨named, ⟨_, colors, others, colored, more, rfl⟩, by simp⟩,
    fun m c has => ?_⟩
  obtain ⟨entry, found, columns⟩ := bandColumn_shapeIds has shapes
  refine ⟨entry, found, fun j inside => ?_⟩
  rw [Band.shapeAt, ← Layout.shapePlace, Array.getElem_map, Array.getElem_range]
  rw [Array.getD_eq_getD_getElem?, columns j]
  rfl

end Reading

end ModelFile

open ModelFile in
/-- For any number of channels the slots of a channel are the combinations of the others in their
order, so that the names in the order of writing are those in the order of reading. Each stands at
the place of its parameter: there the values come from when they are written, and there they go when
they are read. -/
theorem shapeSlots_number_combinations {α : Type} [Scalar α] [Numeral α] :
    (∀ m, IsSlotNumbering m (shapeSlot m) (slotComb m)) ∧
      (∀ l : Layout, slotIds l = shapeIds l ∧
        ∀ m c, l.HasShape m c → (shapeIds l)[l.shapePlace m c]? = some (shapeId m c)) ∧
      (∀ p : Parts α, (shapeRows p).map rowId = (slotIds p.layout).map some ∧
        ∀ m c, p.layout.HasShape m c → (shapeRows p)[p.layout.shapePlace m c]? =
          some (parameterRow (shapeId m c)
            (p.bands.toList.map fun b => b.shapeAt p.layout m c))) ∧
      ∀ (t : Cgats.Table α) (p : Parts α), readParts t = .ok p →
        ∃ names bands, ReadsColumns t p names bands ∧ ∀ m c, p.layout.HasShape m c →
          ∃ entry, parameter t (idIndex t names) bands (shapeId m c) = .ok entry ∧
            ∀ j (inside : j < p.bands.size),
              p.bands[j].shapeAt p.layout m c = entry.getD j 0 := by
  refine ⟨shapeSlot_isSlotNumbering, fun l => ⟨(shapeIds_eq l).symm, ?_⟩, fun p => ⟨?_, ?_⟩, ?_⟩
  · intro m c has
    exact shapeIds_getElem? has
  · exact map_rowId_shapeRows p
  · intro m c has
    exact shapeRows_getElem? has
  · intro t p read
    exact readParts_shapeAt read

theorem greyLamp_hasShape : (greyLamp : Parts ℝ).layout.HasShape 0 0 where
  shaped := rfl
  channel := by decide
  inside := by decide
  clear := by decide

/-- The one shape parameter of the display, in all bands. -/
theorem greyLamp_shapes :
    (greyLamp : Parts ℝ).bands.toList.map
      (fun b => b.shapeAt (greyLamp : Parts ℝ).layout 0 0) = [2, 0, 0, 3, 0] := by
  have values : (greyLamp : Parts ℝ).bands.toList.map
      (fun b => b.shapeAt (greyLamp : Parts ℝ).layout 0 0) =
      [2, @OfNat.ofNat ℝ 0 Scalar.instOfNat, @OfNat.ofNat ℝ 0 Scalar.instOfNat, 3,
        @OfNat.ofNat ℝ 0 Scalar.instOfNat] := rfl
  rw [values, Scalar.real_zero]

attribute [local instance] Numeral.whole

open ModelFile in
theorem shapeSlots_number_combinations_greyModel :
    Set.BijOn (slotComb 1) (Set.Iio 4) {c | c < 8 ∧ c.testBit 1 = false} ∧
      (⟨3, 1, true⟩ : Layout).HasShape 1 5 ∧ (shapeIds ⟨3, 1, true⟩)[7]? = some "s_1_5" ∧
      (shapeRows (greyLamp : Parts ℝ))[0]? = some (parameterRow "s_0_0" [2, 0, 0, 3, 0]) ∧
      ∃ names bands entry, parameter (modelTable .xyz (greyModel : Model ℝ))
        (idIndex (modelTable .xyz (greyModel : Model ℝ)) names) bands "s_0_0" = .ok entry ∧
          entry.getD 3 0 = 3 := by
  obtain ⟨numbered, names, written, read⟩ := shapeSlots_number_combinations (α := ℝ)
  have cyan : (⟨3, 1, true⟩ : Layout).HasShape 1 5 := ⟨rfl, by decide, by decide, by decide⟩
  have parts : readParts (modelTable .xyz (greyModel : Model ℝ)) =
      .ok { greyLamp with limit := greyModel.limit } :=
    readParts_modelTable (Numeral.whole_faithful greyModel_numbers) greyLamp_valid
      (fieldNames_nodup greyLamp_storable.spectral) greyLamp_storable.laidOut
      (InkSet.exists_ofLetters_iff.mp greyLamp_storable.inks)
  obtain ⟨column, bands, -, found⟩ := read _ _ parts
  obtain ⟨entry, here, values⟩ := found 0 0 greyLamp_hasShape
  refine ⟨(numbered 1).onto 3 (by decide), cyan, (names _).2 1 5 cyan, ?_, column, bands, entry,
    here, ?_⟩
  · rw [← greyLamp_shapes]
    exact (written greyLamp).2 0 0 greyLamp_hasShape
  · have third := values 3 (by decide)
    rw [Scalar.real_zero] at third
    exact third.symm

end InkModel
