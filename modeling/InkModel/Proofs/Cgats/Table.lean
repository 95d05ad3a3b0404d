import InkModel.Cgats.Table
import Mathlib

/-! # What every table keeps

Keywords and fields have distinct names, and every data set has one value of
the right type for each field. All operations on tables keep this.
-/

namespace InkModel.Cgats

variable {α : Type}

/-! Keywords. -/

theorem setKey_new {name : String} {pairs : List (String × String)}
    (fresh : name ∉ pairs.map Prod.fst) (value : String) :
    setKey name value pairs = pairs ++ [(name, value)] := by
  induction pairs with
  | nil => rfl
  | cons pair pairs ih =>
      rw [List.map_cons, List.mem_cons, not_or] at fresh
      rw [setKey, if_neg (Ne.symm fresh.1), ih fresh.2, List.cons_append]

/-- The names stay the same, but for a new one at the end. -/
theorem setKey_names (name value : String) (pairs : List (String × String)) :
    (setKey name value pairs).map Prod.fst =
      if name ∈ pairs.map Prod.fst then pairs.map Prod.fst else pairs.map Prod.fst ++ [name] := by
  induction pairs with
  | nil => rfl
  | cons pair pairs ih =>
      rw [setKey]
      by_cases same : pair.1 = name
      · simp [same]
      · rw [if_neg same, List.map_cons, ih]
        by_cases later : name ∈ pairs.map Prod.fst
        · simp [later]
        · simp [later, Ne.symm same]

theorem setKey_nodup {pairs : List (String × String)} (h : (pairs.map Prod.fst).Nodup)
    (name value : String) : ((setKey name value pairs).map Prod.fst).Nodup := by
  rw [setKey_names]
  split
  · exact h
  · rename_i fresh
    exact h.append (List.nodup_singleton name) (by simpa using fresh)

theorem mem_setKey {name value : String} {pairs : List (String × String)} {k : String × String}
    (mem : k ∈ setKey name value pairs) : k = (name, value) ∨ k ∈ pairs := by
  induction pairs with
  | nil => exact .inl (List.mem_singleton.mp mem)
  | cons pair pairs ih =>
      rw [setKey] at mem
      split at mem
      · rename_i same
        rcases List.mem_cons.mp mem with rfl | old
        · exact .inl (by rw [same])
        · exact .inr (List.mem_cons_of_mem pair old)
      · rcases List.mem_cons.mp mem with rfl | later
        · exact .inr List.mem_cons_self
        · exact (ih later).imp_right (List.mem_cons_of_mem pair)

theorem find?_setKey (name value key : String) (pairs : List (String × String)) :
    ((setKey name value pairs).find? fun (k, _) => k == key).map Prod.snd =
      if key = name then some value else (pairs.find? fun (k, _) => k == key).map Prod.snd := by
  induction pairs with
  | nil =>
      rw [setKey]
      by_cases same : key = name
      · simp [same]
      · simp [same, Ne.symm same]
  | cons pair pairs ih =>
      rw [setKey]
      by_cases own : pair.1 = name
      · rw [if_pos own]
        by_cases same : key = name
        · simp [own, same]
        · have : ¬pair.1 = key := fun h => same (h.symm.trans own)
          simp [this, same]
      · rw [if_neg own]
        by_cases here : pair.1 = key
        · have : ¬key = name := fun h => own (here.trans h)
          simp [here, this]
        · rw [List.find?_cons_of_neg (by simpa using here), ih,
            List.find?_cons_of_neg (by simpa using here)]

namespace Table

/-- Distinct names, and data sets that match the fields. -/
structure WellFormed (t : Table α) : Prop where
  keywords : (t.keywords.map Prod.fst).Nodup
  fields : (t.fields.toList.map Field.name).Nodup
  rows : ∀ row ∈ t.rows, row.map Cell.type = t.fields.map Field.type

variable {t t' : Table α}

theorem wellFormed_new (kind : String) : ({ kind } : Table α).WellFormed :=
  ⟨List.nodup_nil, List.nodup_nil, by simp⟩

theorem WellFormed.addKeyword (h : t.WellFormed) (name value : String) :
    (t.addKeyword name value).WellFormed :=
  ⟨setKey_nodup h.keywords name value, h.fields, h.rows⟩

theorem findField?_eq_none {name : String} (h : (t.findField? name).isSome ≠ true) :
    name ∉ t.fields.toList.map Field.name := by
  simp only [findField?, Option.isSome_iff_ne_none, ne_eq, not_not, Array.findIdx?_eq_none_iff,
    beq_eq_false_iff_ne] at h
  intro mem
  obtain ⟨f, hf, same⟩ := List.mem_map.mp mem
  exact h f (Array.mem_toList_iff.mp hf) same

theorem addField_eq_ok (noRows : t.rows = #[]) {name : String}
    (fresh : name ∉ t.fields.toList.map Field.name) (type : FieldType) :
    t.addField name type = .ok { t with fields := t.fields.push ⟨name, type⟩ } := by
  have absent : (t.findField? name).isSome = false := by
    rw [findField?, Option.isSome_eq_false_iff, Option.isNone_iff_eq_none,
      Array.findIdx?_eq_none_iff]
    intro f hf
    have : f.name ≠ name := by
      rintro rfl
      exact fresh (List.mem_map_of_mem (Array.mem_toList_iff.mpr hf))
    simpa using this
  rw [addField, absent, noRows]
  rfl

theorem addSet_eq_ok {cells : Array (Cell α)}
    (types : cells.map Cell.type = t.fields.map Field.type) :
    t.addSet cells = .ok { t with rows := t.rows.push cells } := by
  have size : cells.size = t.fields.size := by simpa using congrArg Array.size types
  have matching (pair : Field × Cell α) (mem : pair ∈ Array.zip t.fields cells) :
      pair.1.type = pair.2.type := by
    obtain ⟨i, hi, rfl⟩ := Array.mem_iff_getElem.mp mem
    have hf : i < t.fields.size := by simpa [size] using hi
    have entry := congrArg (·[i]?) types
    simp only [Array.getElem?_map, Array.getElem?_eq_getElem hf,
      Array.getElem?_eq_getElem (size ▸ hf), Option.map_some, Option.some.injEq] at entry
    simp [entry]
  rw [addSet, if_neg (not_not.mpr size)]
  split
  · rename_i f c found
    have other : f.type ≠ c.type := by simpa using Array.find?_some found
    exact absurd (matching _ (Array.mem_of_find?_eq_some found)) other
  · rfl

/-- What an accepted field says: there is no data yet and its name is new. -/
theorem addField_eq_ok_iff {name : String} {type : FieldType} :
    t.addField name type = .ok t' ↔ t.rows = #[] ∧ name ∉ t.fields.toList.map Field.name ∧
      t' = { t with fields := t.fields.push ⟨name, type⟩ } := by
  constructor
  · intro added
    rw [addField] at added
    split at added
    · cases added
    · rename_i noRows
      split at added
      · cases added
      · rename_i fresh
        cases added
        exact ⟨by simpa [Array.isEmpty] using noRows, findField?_eq_none fresh, rfl⟩
  · rintro ⟨noRows, fresh, rfl⟩
    exact addField_eq_ok noRows fresh type

/-- What an accepted data set says: its values have the types of the fields. -/
theorem addSet_eq_ok_iff {cells : Array (Cell α)} :
    t.addSet cells = .ok t' ↔ cells.map Cell.type = t.fields.map Field.type ∧
      t' = { t with rows := t.rows.push cells } := by
  constructor
  · intro added
    rw [addSet] at added
    split at added
    · cases added
    · rename_i size
      split at added
      · cases added
      · rename_i matching
        cases added
        have size : cells.size = t.fields.size := not_not.mp size
        refine ⟨Array.ext (by simpa using size) fun i h₁ h₂ => ?_, rfl⟩
        have hc : i < cells.size := by simpa using h₁
        have hf : i < t.fields.size := by simpa using h₂
        have pair : (t.fields[i], cells[i]) ∈ Array.zip t.fields cells := by
          rw [Array.mem_iff_getElem]
          exact ⟨i, by simp [hc, hf], by simp⟩
        have same : t.fields[i].type = cells[i].type := by
          simpa using Array.find?_eq_none.mp matching _ pair
        simpa using same.symm
  · rintro ⟨types, rfl⟩
    exact addSet_eq_ok types

theorem addFields_eq_ok (noRows : t.rows = #[]) (type : FieldType) {names : List String}
    (nodup : (t.fields.toList.map Field.name ++ names).Nodup) :
    t.addFields type names =
      .ok { t with fields := t.fields ++ (names.map fun name => ⟨name, type⟩).toArray } := by
  induction names generalizing t with
  | nil => simp [addFields]
  | cons name names ih =>
      have fresh : name ∉ t.fields.toList.map Field.name := fun mem =>
        (List.nodup_append.mp nodup).2.2 name mem name List.mem_cons_self rfl
      have others := ih (t := { t with fields := t.fields.push ⟨name, type⟩ }) noRows
        (by simpa using nodup)
      rw [addFields, addField_eq_ok noRows fresh type]
      dsimp only
      rw [others]
      simp

theorem addSets_eq_ok {sets : List (Array (Cell α))}
    (types : ∀ cells ∈ sets, cells.map Cell.type = t.fields.map Field.type) :
    t.addSets sets = .ok { t with rows := t.rows ++ sets.toArray } := by
  induction sets generalizing t with
  | nil => simp [addSets]
  | cons cells sets ih =>
      have others := ih (t := { t with rows := t.rows.push cells })
        fun c mem => types c (List.mem_cons_of_mem cells mem)
      rw [addSets, addSet_eq_ok (types cells List.mem_cons_self)]
      dsimp only
      rw [others]
      simp

/-! Look-ups. -/

theorem findKeyword?_addKeyword (t : Table α) (name value key : String) :
    (t.addKeyword name value).findKeyword? key =
      if key = name then some value else t.findKeyword? key :=
  find?_setKey name value key t.keywords

theorem findKeyword?_addKeyword? (t : Table α) (name : String) (value : Option String)
    (key : String) : (t.addKeyword? name value).findKeyword? key =
      if key = name then value.or (t.findKeyword? key) else t.findKeyword? key := by
  cases value with
  | none => simp [Table.addKeyword?]
  | some v => simp [Table.addKeyword?, findKeyword?_addKeyword]

/-- Sets every keyword that has a value. -/
def addAll (t : Table α) (entries : List (String × Option String)) : Table α :=
  entries.foldl (fun t entry => t.addKeyword? entry.1 entry.2) t

theorem addAll_fields (t : Table α) (entries : List (String × Option String)) :
    (t.addAll entries).fields = t.fields ∧ (t.addAll entries).rows = t.rows ∧
      (t.addAll entries).kind = t.kind := by
  induction entries generalizing t with
  | nil => exact ⟨rfl, rfl, rfl⟩
  | cons entry entries ih =>
      obtain ⟨name, _ | value⟩ := entry
      · exact ih t
      · exact ih (t.addKeyword name value)

theorem WellFormed.addAll (h : t.WellFormed) (entries : List (String × Option String)) :
    (t.addAll entries).WellFormed := by
  induction entries generalizing t with
  | nil => exact h
  | cons entry entries ih =>
      obtain ⟨name, _ | value⟩ := entry
      · exact ih h
      · exact ih (h.addKeyword name value)

theorem findKeyword?_addAll_other (t : Table α) {entries : List (String × Option String)}
    {key : String} (other : key ∉ entries.map Prod.fst) :
    (t.addAll entries).findKeyword? key = t.findKeyword? key := by
  induction entries generalizing t with
  | nil => rfl
  | cons entry entries ih =>
      rw [List.map_cons, List.mem_cons, not_or] at other
      exact (ih _ other.2).trans
        ((findKeyword?_addKeyword? t entry.1 entry.2 key).trans (if_neg other.1))

/-- Among keywords with distinct names everyone has the value that was set. -/
theorem findKeyword?_addAll {entries : List (String × Option String)}
    (nodup : (entries.map Prod.fst).Nodup)
    (fresh : ∀ entry ∈ entries, t.findKeyword? entry.1 = none)
    {key : String} {value : Option String} (mem : (key, value) ∈ entries) :
    (t.addAll entries).findKeyword? key = value := by
  induction entries generalizing t with
  | nil => cases mem
  | cons entry entries ih =>
      rw [List.map_cons, List.nodup_cons] at nodup
      rcases List.mem_cons.mp mem with rfl | later
      · refine (findKeyword?_addAll_other _ nodup.1).trans ?_
        rw [findKeyword?_addKeyword?, if_pos rfl, fresh _ List.mem_cons_self, Option.or_none]
      · refine ih nodup.2 (fun e he => ?_) later
        have other : e.1 ≠ entry.1 := fun same => nodup.1 (same ▸ List.mem_map_of_mem he)
        rw [findKeyword?_addKeyword?, if_neg other]
        exact fresh e (List.mem_cons_of_mem entry he)

theorem mem_keywords_addAll {entries : List (String × Option String)} {k : String × String}
    (mem : k ∈ (t.addAll entries).keywords) :
    k ∈ t.keywords ∨ (k.1, some k.2) ∈ entries := by
  induction entries generalizing t with
  | nil => exact .inl mem
  | cons entry entries ih =>
      obtain ⟨name, value⟩ := entry
      rcases ih mem with before | later
      · cases value with
        | none => exact .inl before
        | some v =>
            rcases mem_setKey before with rfl | old
            · exact .inr List.mem_cons_self
            · exact .inl old
      · exact .inr (List.mem_cons_of_mem _ later)

/-- Fields with distinct names are found where they are. -/
theorem findField?_eq (nodup : (t.fields.toList.map Field.name).Nodup) {i : ℕ} {name : String}
    (here : (t.fields.toList.map Field.name)[i]? = some name) : t.findField? name = some i := by
  obtain ⟨hi, rfl⟩ := List.getElem?_eq_some_iff.mp here
  have hi : i < t.fields.size := by simpa using hi
  rw [findField?, Array.findIdx?_eq_some_iff_getElem]
  refine ⟨hi, by simp, fun j before => ?_⟩
  have other := (List.nodup_iff_getElem?_ne_getElem?.mp nodup) j i before (by simpa using hi)
  simpa [before.trans hi, hi] using other

theorem getElem?_of_findField? {name : String} {i : ℕ} (found : t.findField? name = some i) :
    (t.fields.toList.map Field.name)[i]? = some name := by
  rw [findField?, Array.findIdx?_eq_some_iff_getElem] at found
  obtain ⟨hi, same, -⟩ := found
  simpa [hi] using same

theorem mem_of_findField? {name : String} {i : ℕ} (found : t.findField? name = some i) :
    name ∈ t.fields.toList.map Field.name :=
  List.mem_of_getElem? (getElem?_of_findField? found)

/-- Where each of the next fields is found. -/
theorem findFieldsFrom_eq_ok {name : ℕ → String} (position : ℕ → ℕ) {cols : Array ℕ} {count : ℕ}
    (found : ∀ i < count, t.findField? (name (cols.size + i)) = some (position (cols.size + i))) :
    t.findFieldsFrom name cols count =
      .ok (cols.toList ++ (List.range' cols.size count).map position) := by
  induction count generalizing cols with
  | zero => simp [findFieldsFrom]
  | succ count ih =>
      have first : t.findField? (name cols.size) = some (position cols.size) :=
        found 0 (Nat.succ_pos count)
      have rest : t.findFieldsFrom name (cols.push (position cols.size)) count = _ :=
        ih fun i hi => by
          have := found (i + 1) (Nat.succ_lt_succ hi)
          rwa [Array.size_push, Nat.add_assoc, Nat.add_comm 1 i]
      rw [findFieldsFrom, first]
      dsimp only
      rw [rest]
      simp [List.range'_succ]

theorem WellFormed.addField (h : t.WellFormed) {name : String} {type : FieldType}
    (added : t.addField name type = .ok t') : t'.WellFormed := by
  obtain ⟨noRows, fresh, rfl⟩ := addField_eq_ok_iff.mp added
  refine ⟨h.keywords, ?_, by simp [noRows]⟩
  rw [Array.toList_push, List.map_append]
  exact h.fields.append (List.nodup_singleton name) (by simpa using fresh)

/-- The new field is the last. -/
theorem WellFormed.findField?_addField (h : t.WellFormed) {name : String} {type : FieldType}
    (added : t.addField name type = .ok t') : t'.findField? name = some (t'.fields.size - 1) := by
  have nodup := (h.addField added).fields
  obtain ⟨-, -, rfl⟩ := addField_eq_ok_iff.mp added
  exact findField?_eq nodup (by simp)

/-- A field keeps its position as others follow. -/
theorem WellFormed.findField?_kept (h : t.WellFormed) {name : String} {type : FieldType}
    (added : t.addField name type = .ok t') {name' : String} {i : ℕ}
    (found : t.findField? name' = some i) : t'.findField? name' = some i := by
  have nodup := (h.addField added).fields
  obtain ⟨-, -, rfl⟩ := addField_eq_ok_iff.mp added
  refine findField?_eq nodup ?_
  have here := getElem?_of_findField? found
  rw [Array.toList_push, List.map_append,
    List.getElem?_append_left (List.getElem?_eq_some_iff.mp here).1]
  exact here

theorem WellFormed.addSet (h : t.WellFormed) {cells : Array (Cell α)}
    (added : t.addSet cells = .ok t') : t'.WellFormed := by
  obtain ⟨types, rfl⟩ := addSet_eq_ok_iff.mp added
  refine ⟨h.keywords, h.fields, fun row mem => ?_⟩
  rcases Array.mem_push.mp mem with old | rfl
  · exact h.rows row old
  · exact types

theorem WellFormed.addFields (h : t.WellFormed) {type : FieldType} {names : List String}
    (added : t.addFields type names = .ok t') : t'.WellFormed := by
  induction names generalizing t with
  | nil =>
      cases added
      exact h
  | cons name names ih =>
      rw [Table.addFields] at added
      split at added
      · cases added
      · exact ih (h.addField ‹_›) added

theorem WellFormed.addSets (h : t.WellFormed) {sets : List (Array (Cell α))}
    (added : t.addSets sets = .ok t') : t'.WellFormed := by
  induction sets generalizing t with
  | nil =>
      cases added
      exact h
  | cons cells sets ih =>
      rw [Table.addSets] at added
      split at added
      · cases added
      · exact ih (h.addSet ‹_›) added

theorem WellFormed.row_size (wf : t.WellFormed) {row : Array (Cell α)} (mem : row ∈ t.rows) :
    row.size = t.fields.size := by
  simpa using congrArg Array.size (wf.rows row mem)

theorem WellFormed.cell_type (wf : t.WellFormed) {row : Array (Cell α)}
    (mem : row ∈ t.rows) {i : ℕ} (hi : i < row.size) (hf : i < t.fields.size) :
    row[i].type = t.fields[i].type := by
  have := congrArg (·[i]?) (wf.rows row mem)
  simpa [hi, hf] using this

end Table

end InkModel.Cgats
