import InkModel.Proofs.Color.Lab
import InkModel.Proofs.Profile.Ids
import InkModel.Proofs.Profile.Parts

/-! # Parameters as data sets

The data sets of a model are the ids of its layout with the values of every band,
and they are found by these ids. Read in the order of the ids, the values of a
band make up its tables again.
-/

namespace InkModel.ModelFile

open Cgats

/-- Entries channel by channel, numbered through. -/
theorem flatMap_eq_mapIdx {β γ : Type} (n size : ℕ) (id : ℕ → ℕ → β) (f : ℕ → β → γ) :
    ((List.range n).flatMap fun m => (List.range size).map fun i => f (m * size + i) (id m i)) =
      ((List.range n).flatMap fun m => (List.range size).map (id m)).mapIdx f := by
  induction n with
  | zero => rfl
  | succ n ih =>
      rw [List.range_succ, List.flatMap_append, List.flatMap_append, List.mapIdx_append, ih,
        List.flatMap_singleton, List.flatMap_singleton]
      congr 1
      apply List.ext_getElem (by simp)
      intro i _ _
      simp [Nat.add_comm]

section Rows

variable {α : Type}

/-- The id of a data set. -/
def rowId (row : Array (Cell α)) : Option String := (row[0]?).bind Cell.asText?

@[simp] theorem rowId_parameterRow (id : String) (values : List α) :
    rowId (parameterRow id values) = some id := by
  simp [rowId, parameterRow, Cell.asText?]

theorem map_rowId_mapIdx (names : List String) (values : ℕ → List α) :
    (names.mapIdx fun i id => parameterRow id (values i)).map rowId = names.map some := by
  apply List.ext_getElem (by simp)
  intro i _ _
  simp

variable [Scalar α]

/-- An entry of a table in every band. -/
def bandValues (p : Parts α) (table : Band α → Array α) (i : ℕ) : List α :=
  p.bands.toList.map fun b => (table b).getD i 0

@[simp] theorem bandValues_length (p : Parts α) (table : Band α → Array α) (i : ℕ) :
    (bandValues p table i).length = p.bands.size := by
  simp [bandValues]

theorem encodePrimaries_length (enc : ColorEncoding) (values : List α) :
    (encodePrimaries enc values).length = values.length := by
  unfold encodePrimaries
  split
  · simp [Lab.toList]
  · rfl

/-- The data sets of a model. -/
def parameterRows (enc : ColorEncoding) (p : Parts α) : List (Array (Cell α)) :=
  transferRows p ++ shapeRows p ++ primaryRows enc p

theorem transferRows_eq (p : Parts α) : transferRows p =
    (transferIds p.layout).mapIdx fun i id => parameterRow id (bandValues p Band.transfer i) :=
  flatMap_eq_mapIdx _ _ transferId fun i id => parameterRow id (bandValues p Band.transfer i)

theorem shapeRows_eq (p : Parts α) : shapeRows p =
    (shapeIds p.layout).mapIdx fun i id => parameterRow id (bandValues p Band.shape i) := by
  rw [shapeIds_eq]
  exact flatMap_eq_mapIdx _ _ (fun m slot => shapeId m (slotComb m slot))
    fun i id => parameterRow id (bandValues p Band.shape i)

theorem primaryRows_eq (enc : ColorEncoding) (p : Parts α) : primaryRows enc p =
    (primaryIds p.layout).mapIdx fun i id =>
      parameterRow id (encodePrimaries enc (bandValues p Band.primaries i)) := by
  apply List.ext_getElem (by simp [primaryRows, primaryIds])
  intro i _ _
  simp [primaryRows, primaryIds, bandValues]

theorem map_rowId_parameterRows (enc : ColorEncoding) (p : Parts α) :
    (parameterRows enc p).map rowId = (ids p.layout).map some := by
  rw [parameterRows, transferRows_eq, shapeRows_eq, primaryRows_eq, List.map_append,
    List.map_append, map_rowId_mapIdx, map_rowId_mapIdx,
    map_rowId_mapIdx _ fun i => encodePrimaries enc (bandValues p Band.primaries i), ids,
    List.map_append, List.map_append]

/-- Every data set has an id and a value for each band. -/
theorem mem_parameterRows {enc : ColorEncoding} {p : Parts α} {row : Array (Cell α)}
    (h : row ∈ parameterRows enc p) :
    ∃ id ∈ ids p.layout, ∃ values : List α,
      values.length = p.bands.size ∧ row = parameterRow id values := by
  rw [parameterRows, transferRows_eq, shapeRows_eq, primaryRows_eq] at h
  rcases List.mem_append.mp h with others | primary
  · rcases List.mem_append.mp others with transfer | shape
    · obtain ⟨i, hi, rfl⟩ := List.mem_mapIdx.mp transfer
      refine ⟨_, ?_, bandValues p Band.transfer i, by simp, rfl⟩
      exact List.mem_append_left _ (List.mem_append_left _ (List.getElem_mem hi))
    · obtain ⟨i, hi, rfl⟩ := List.mem_mapIdx.mp shape
      refine ⟨_, ?_, bandValues p Band.shape i, by simp, rfl⟩
      exact List.mem_append_left _ (List.mem_append_right _ (List.getElem_mem hi))
  · obtain ⟨i, hi, rfl⟩ := List.mem_mapIdx.mp primary
    refine ⟨_, ?_, encodePrimaries enc (bandValues p Band.primaries i), ?_, rfl⟩
    · exact List.mem_append_right _ (List.getElem_mem hi)
    · rw [encodePrimaries_length, bandValues_length]

end Rows

section Reading

variable {α : Type} {t : Table α}

theorem text?_zero (t : Table α) (r : ℕ) : t.text? r 0 = (t.rows[r]?).bind rowId := by
  rw [Table.text?, Table.cell?]
  cases t.rows[r]? <;> rfl

theorem real?_parameterRow {r : ℕ} {id : String} {values : List α}
    (row : t.rows[r]? = some (parameterRow id values)) (j : ℕ) :
    t.real? r (j + 1) = values[j]? := by
  rw [Table.real?, Table.cell?, row]
  simp only [parameterRow, Option.bind_some, List.getElem?_toArray, List.getElem?_cons_succ,
    List.getElem?_map]
  cases values[j]? <;> rfl

theorem mem_idIndex {r col : ℕ} {id : String} :
    (id, r) ∈ idIndex t col ↔ r < t.size ∧ t.text? r col = some id := by
  rw [idIndex]
  induction t.size with
  | zero => simp
  | succ n ih =>
      rw [List.range_succ, List.foldl_append, List.foldl_cons, List.foldl_nil]
      cases text : t.text? n col with
      | none =>
          dsimp only
          rw [ih, Nat.lt_succ_iff_lt_or_eq]
          constructor
          · rintro ⟨less, here⟩
            exact ⟨.inl less, here⟩
          · rintro ⟨less | rfl, here⟩
            · exact ⟨less, here⟩
            · rw [text] at here
              cases here
      | some name =>
          dsimp only
          rw [List.mem_cons, ih, Nat.lt_succ_iff_lt_or_eq, Prod.mk.injEq]
          constructor
          · rintro (⟨rfl, rfl⟩ | ⟨less, here⟩)
            · exact ⟨.inr rfl, text⟩
            · exact ⟨.inl less, here⟩
          · rintro ⟨less | rfl, here⟩
            · exact .inr ⟨less, here⟩
            · rw [text, Option.some.injEq] at here
              exact .inl ⟨here.symm, rfl⟩

/-- An id that only one row has is found at that row. -/
theorem find?_idIndex {r col : ℕ} {id : String} (here : t.text? r col = some id)
    (alone : ∀ r', t.text? r' col = some id → r' = r) :
    (idIndex t col).find? (fun (k, _) => k == id) = some (id, r) := by
  have inside : r < t.size := by
    rw [Table.size]
    by_contra outside
    rw [Table.text?, Table.cell?, Array.getElem?_eq_none (not_lt.mp outside)] at here
    cases here
  cases found : (idIndex t col).find? (fun (k, _) => k == id) with
  | none =>
      have := List.find?_eq_none.mp found _ (mem_idIndex.mpr ⟨inside, here⟩)
      simp at this
  | some entry =>
      obtain ⟨k, r'⟩ := entry
      have same : k = id := by simpa using List.find?_some found
      subst same
      rw [alone r' (mem_idIndex.mp (List.mem_of_find?_eq_some found)).2]

/-- A parameter is read from its data set, when all ids are distinct. -/
theorem parameter_eq_ok (nodup : (t.rows.toList.map rowId).Nodup) {id : String} {values : List α}
    (mem : parameterRow id values ∈ t.rows) :
    parameter t (idIndex t 0) ((List.range values.length).map (· + 1)) id = .ok values := by
  obtain ⟨r, hr, row⟩ := Array.mem_iff_getElem.mp mem
  have row : t.rows[r]? = some (parameterRow id values) := by
    rw [Array.getElem?_eq_getElem hr, row]
  have entry {r' : ℕ} (text : t.text? r' 0 = some id) :
      (t.rows.toList.map rowId)[r']? = some (some id) := by
    rw [List.getElem?_map, Array.getElem?_toList]
    rw [text?_zero] at text
    cases here : t.rows[r']? with
    | none => simp [here] at text
    | some cells => simpa [here] using text
  have here : t.text? r 0 = some id := by
    rw [text?_zero, row, Option.bind_some, rowId_parameterRow]
  have found := find?_idIndex here fun r' there => by
    refine (List.getElem?_inj ?_ nodup).mp ((entry there).trans (entry here).symm)
    exact (List.getElem?_eq_some_iff.mp (entry there)).1
  rw [parameter, found]
  dsimp only
  apply mapM_eq_ok_iff.mpr
  rw [List.forall₂_iff_get]
  refine ⟨by simp, fun i _ hi => ?_⟩
  have hi : i < values.length := hi
  simp [real?_parameterRow row, hi]

theorem parameterTable_eq_ok {values : String → Except (FormatFault α) (List α)}
    {names : List String} {read : ℕ → List α}
    (each : ∀ i, (h : i < names.length) → values names[i] = .ok (read i)) :
    parameterTable values names =
      .ok ((List.range names.length).map fun i => (read i).toArray).toArray := by
  have all : names.mapM values = .ok ((List.range names.length).map read) := by
    apply mapM_eq_ok_iff.mpr
    rw [List.forall₂_iff_get]
    refine ⟨by simp, fun i hi _ => ?_⟩
    simpa using each i hi
  rw [parameterTable, all]
  simp [Except.map]

end Reading

section Bands

variable {α : Type} [Scalar α]

/-- The entries of a table in every band, entry by entry. -/
def bandEntries (p : Parts α) (table : Band α → Array α) (count : ℕ) : Array (Array α) :=
  ((List.range count).map fun i => (bandValues p table i).toArray).toArray

theorem bandColumn_bandEntries {p : Parts α} {j : ℕ} (hj : j < p.bands.size)
    (table : Band α → Array α) {count : ℕ} (size : (table p.bands[j]).size = count) :
    bandColumn (bandEntries p table count) j = table p.bands[j] := by
  apply Array.ext (by simp [bandColumn, bandEntries, size])
  intro i _ inside
  simp [bandColumn, bandEntries, bandValues, hj, inside]

/-- The bands are found again in the entries of their tables. -/
theorem bands_eq {p : Parts α} (fits : ∀ b ∈ p.bands, b.Fits p.layout) :
    ((Array.range p.bands.size).map fun j =>
      Band.mk (bandColumn (bandEntries p Band.transfer p.layout.transferCount) j)
        (bandColumn (bandEntries p Band.shape p.layout.shapeCount) j)
        (bandColumn (bandEntries p Band.primaries p.layout.combinations) j)) = p.bands := by
  apply Array.ext (by simp)
  intro j _ hj
  obtain ⟨transfer, shape, primaries⟩ := fits _ (Array.getElem_mem hj)
  rw [Array.getElem_map, Array.getElem_range, bandColumn_bandEntries hj _ transfer,
    bandColumn_bandEntries hj _ shape, bandColumn_bandEntries hj _ primaries]

/-- The columns of the bands, behind the column of the ids. -/
def bandColumns (p : Parts α) : List ℕ := (List.range p.bands.size).map (· + 1)

section Tables

variable {enc : ColorEncoding} {p : Parts α} {t : Table α}
variable (rows : t.rows = (parameterRows enc p).toArray)
include rows

theorem parameter_of_mem {id : String} {values : List α} (size : values.length = p.bands.size)
    (mem : parameterRow id values ∈ parameterRows enc p) :
    parameter t (idIndex t 0) (bandColumns p) id = .ok values := by
  rw [bandColumns, ← size]
  apply parameter_eq_ok
  · rw [rows, map_rowId_parameterRows]
    exact (ids_nodup p.layout).map (Option.some_injective _)
  · rw [rows]
    exact List.mem_toArray.mpr mem

theorem parameterTable_transfer :
    parameterTable (parameter t (idIndex t 0) (bandColumns p)) (transferIds p.layout) =
      .ok (bandEntries p Band.transfer p.layout.transferCount) := by
  rw [← transferIds_length]
  refine parameterTable_eq_ok fun i hi => parameter_of_mem rows (by simp) ?_
  rw [parameterRows, transferRows_eq]
  exact List.mem_append_left _ (List.mem_append_left _ (List.mem_mapIdx.mpr ⟨i, hi, rfl⟩))

theorem parameterTable_shape :
    parameterTable (parameter t (idIndex t 0) (bandColumns p)) (shapeIds p.layout) =
      .ok (bandEntries p Band.shape p.layout.shapeCount) := by
  rw [← shapeIds_length]
  refine parameterTable_eq_ok fun i hi => parameter_of_mem rows (by simp) ?_
  rw [parameterRows, shapeRows_eq]
  exact List.mem_append_left _ (List.mem_append_right _ (List.mem_mapIdx.mpr ⟨i, hi, rfl⟩))

theorem parameterTable_primaries
    (inverse : ∀ values : List α, decodePrimaries enc (encodePrimaries enc values) = values) :
    parameterTable
        (fun id => (parameter t (idIndex t 0) (bandColumns p) id).map (decodePrimaries enc))
        (primaryIds p.layout) =
      .ok (bandEntries p Band.primaries p.layout.combinations) := by
  rw [← primaryIds_length]
  refine parameterTable_eq_ok fun i hi => ?_
  have written : parameterRow (primaryIds p.layout)[i]
      (encodePrimaries enc (bandValues p Band.primaries i)) ∈ parameterRows enc p := by
    rw [parameterRows, primaryRows_eq]
    exact List.mem_append_right _ (List.mem_mapIdx.mpr ⟨i, hi, rfl⟩)
  rw [parameter_of_mem rows (by rw [encodePrimaries_length, bandValues_length]) written]
  exact congrArg Except.ok (inverse _)

end Tables

end Bands

theorem decodePrimaries_encodePrimaries (enc : ColorEncoding) (values : List ℝ) :
    decodePrimaries enc (encodePrimaries enc values) = values := by
  cases enc with
  | xyz => rfl
  | lab =>
      match values with
      | [] | [_] | [_, _] => rfl
      | x :: y :: z :: rest =>
          change (Lab.toXyz (Xyz.toLab ⟨x, y, z⟩)).toList ++ rest = x :: y :: z :: rest
          rw [Xyz.toXyz_toLab]
          rfl

end InkModel.ModelFile
