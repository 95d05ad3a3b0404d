import InkModel.Proofs.Profile.RoundTrip

/-! # Tables in another order

A table of a model is read by names only: keywords, fields and data sets are looked up, and their
places are not counted. The names of keywords and fields are distinct in every table; where the ids
of the data sets are distinct too, a name finds the same thing in every order. So tables that differ
in order alone hold the same model, or fail for the same reason.
-/

namespace InkModel

section Search

variable {β κ : Type} [BEq κ] [LawfulBEq κ] {key : β → κ} {l l' : List β}

/-- The search among distinct keys finds the only entry. -/
theorem find?_eq_some_iff_of_nodup (nodup : (l.map key).Nodup) {k : κ} {x : β} :
    (l.find? fun x => key x == k) = some x ↔ x ∈ l ∧ key x = k := by
  constructor
  · intro found
    exact ⟨List.mem_of_find?_eq_some found, by simpa using List.find?_some found⟩
  · rintro ⟨mem, named⟩
    cases found : l.find? fun x => key x == k with
    | none => exact absurd (beq_iff_eq.mpr named) (List.find?_eq_none.mp found x mem)
    | some y =>
        have other : key y = k := by simpa using List.find?_some found
        rw [List.inj_on_of_nodup_map nodup (List.mem_of_find?_eq_some found) mem
          (other.trans named.symm)]

theorem find?_of_perm (perm : l'.Perm l) (nodup : (l.map key).Nodup) (k : κ) :
    (l'.find? fun x => key x == k) = l.find? fun x => key x == k := by
  refine Option.ext fun x => ?_
  rw [find?_eq_some_iff_of_nodup ((perm.map key).nodup_iff.mpr nodup),
    find?_eq_some_iff_of_nodup nodup, perm.mem_iff]

end Search

namespace Cgats

section Tables

variable {α : Type}

/-- The text of a data set in a column. -/
def textAt (col : ℕ) (row : Array (Cell α)) : Option String := (row[col]?).bind Cell.asText?

namespace Table

/-- The texts in a column. -/
def texts (t : Table α) (col : ℕ) : List String := t.rows.toList.filterMap (textAt col)

/-- A table with the keywords and the data sets of another in any order. Its fields, with their
cells, are in the order `σ`: at place `i` is what the other has at place `σ i`. -/
structure Arranges (t' : Table α) (σ : Equiv.Perm ℕ) (t : Table α) : Prop where
  kind : t'.kind = t.kind
  keywords : t'.keywords.Perm t.keywords
  fields : ∀ i, t'.fields[i]? = t.fields[σ i]?
  rows : ∃ rows, rows.Perm t.rows.toList ∧
    List.Forall₂ (fun row' row => ∀ i, row'[i]? = row[σ i]?) t'.rows.toList rows

variable {t t' : Table α} {σ : Equiv.Perm ℕ} (arranged : t'.Arranges σ t)
include arranged

namespace Arranges

theorem findKeyword?_eq (nodup : (t.keywords.map Prod.fst).Nodup) (name : String) :
    t'.findKeyword? name = t.findKeyword? name :=
  congrArg (Option.map Prod.snd) (find?_of_perm arranged.keywords nodup name)

theorem fieldName_eq (i : ℕ) :
    (t'.fields.toList.map Field.name)[i]? = (t.fields.toList.map Field.name)[σ i]? := by
  simp [arranged.fields i]

theorem fields_nodup (nodup : (t.fields.toList.map Field.name).Nodup) :
    (t'.fields.toList.map Field.name).Nodup := by
  rw [List.nodup_iff_getElem?_ne_getElem?]
  intro i j less inside same
  have here := List.getElem?_eq_getElem (less.trans inside)
  rw [arranged.fieldName_eq] at here same
  rw [arranged.fieldName_eq] at same
  exact less.ne (σ.injective
    ((List.getElem?_inj (List.getElem?_eq_some_iff.mp here).1 nodup).mp same))

theorem findField?_eq_map (nodup : (t.fields.toList.map Field.name).Nodup) (name : String) :
    t'.findField? name = (t.findField? name).map σ.symm := by
  cases found' : t'.findField? name with
  | some c =>
      have here := getElem?_of_findField? found'
      rw [arranged.fieldName_eq] at here
      rw [findField?_eq nodup here, Option.map_some, Equiv.symm_apply_apply]
  | none =>
      cases found : t.findField? name with
      | none => rfl
      | some c =>
          have here := getElem?_of_findField? found
          rw [← σ.apply_symm_apply c, ← arranged.fieldName_eq] at here
          rw [findField?_eq (arranged.fields_nodup nodup) here] at found'
          cases found'

theorem texts_perm (col : ℕ) : (t'.texts (σ.symm col)).Perm (t.texts col) := by
  obtain ⟨rows, perm, same⟩ := arranged.rows
  have texts : t'.rows.toList.filterMap (textAt (σ.symm col)) = rows.filterMap (textAt col) := by
    clear perm
    generalize t'.rows.toList = rows' at same
    induction same with
    | nil => rfl
    | @cons row' row _ _ first _ ih =>
        have text : textAt (σ.symm col) row' = textAt col row := by
          rw [textAt, first, σ.apply_symm_apply, textAt]
        rw [List.filterMap_cons, List.filterMap_cons, text, ih]
  rw [Table.texts, texts]
  exact perm.filterMap _

theorem exists_row {row : Array (Cell α)} (mem : row ∈ t.rows) :
    ∃ row' ∈ t'.rows, ∀ i, row'[i]? = row[σ i]? := by
  obtain ⟨rows, perm, same⟩ := arranged.rows
  obtain ⟨row', mem', entries⟩ := exists_mem_of_forall₂ same.flip
    (perm.mem_iff.mpr (Array.mem_toList_iff.mpr mem))
  exact ⟨row', Array.mem_toList_iff.mp mem', entries⟩

end Arranges

end Table

end Tables

end Cgats

namespace ModelFile

open Cgats

section Parameters

variable {α : Type} {t : Table α} {col : ℕ} {cols : List ℕ} {id : String}

/-- The values of a data set in the given columns. -/
def rowValues (row : Array (Cell α)) (cols : List ℕ) (id : String) :
    Except (FormatFault α) (List α) :=
  cols.mapM fun col =>
    match (row[col]?).bind Cell.asReal? with
    | some x => .ok x
    | none => .error (.nonNumeric id)

theorem text?_eq (t : Table α) (r col : ℕ) : t.text? r col = (t.rows[r]?).bind (textAt col) := by
  rw [Table.text?, Table.cell?]
  cases t.rows[r]? <;> rfl

theorem eq_of_text? (distinct : (t.texts col).Nodup) {r r' : ℕ} (here : t.text? r col = some id)
    (there : t.text? r' col = some id) : r = r' := by
  rw [text?_eq, Option.bind_eq_some_iff] at here there
  obtain ⟨row, hr, named⟩ := here
  obtain ⟨row', hr', named'⟩ := there
  obtain ⟨inside, rfl⟩ := Array.getElem?_eq_some_iff.mp hr
  obtain ⟨inside', rfl⟩ := Array.getElem?_eq_some_iff.mp hr'
  have apart := List.pairwise_iff_getElem.mp (List.pairwise_filterMap.mp distinct)
  rcases lt_trichotomy r r' with before | same | behind
  · exact absurd rfl (apart r r' inside inside' before id named id named')
  · exact same
  · exact absurd rfl (apart r' r inside' inside behind id named' id named)

theorem parameter_eq_rowValues (distinct : (t.texts col).Nodup) {row : Array (Cell α)}
    (mem : row ∈ t.rows) (named : textAt col row = some id) :
    parameter t (idIndex t col) cols id = rowValues row cols id := by
  obtain ⟨r, inside, rfl⟩ := Array.mem_iff_getElem.mp mem
  have here : t.text? r col = some id := by
    rw [text?_eq, Array.getElem?_eq_getElem inside, Option.bind_some, named]
  have value (c : ℕ) : t.real? r c = ((t.rows[r])[c]?).bind Cell.asReal? := by
    rw [Table.real?, Table.cell?, Array.getElem?_eq_getElem inside, Option.bind_some]
  rw [parameter, find?_idIndex here fun r' there => eq_of_text? distinct there here]
  refine congrArg (cols.mapM ·) (funext fun c => ?_)
  cases entry : ((t.rows[r])[c]?).bind Cell.asReal? <;> simp [value, entry]

theorem parameter_eq_missing (absent : id ∉ t.texts col) :
    parameter t (idIndex t col) cols id = .error (.missingParameter id) := by
  rw [parameter]
  split
  · rfl
  · rename_i k r found
    obtain rfl : k = id := by simpa using List.find?_some found
    have text := (mem_idIndex.mp (List.mem_of_find?_eq_some found)).2
    rw [text?_eq, Option.bind_eq_some_iff] at text
    obtain ⟨row, here, named⟩ := text
    have mem := Array.mem_toList_iff.mpr (Array.mem_of_getElem? here)
    exact absurd (List.mem_filterMap.mpr ⟨row, mem, named⟩) absent

theorem parameter_arranged {t' : Table α} {σ : Equiv.Perm ℕ} (arranged : t'.Arranges σ t)
    (distinct : (t.texts col).Nodup) (cols : List ℕ) :
    parameter t' (idIndex t' (σ.symm col)) (cols.map σ.symm) =
      parameter t (idIndex t col) cols := by
  funext id
  have texts := arranged.texts_perm col
  by_cases present : id ∈ t.texts col
  · obtain ⟨row, mem, named⟩ := List.mem_filterMap.mp present
    have mem := Array.mem_toList_iff.mp mem
    obtain ⟨row', mem', entries⟩ := arranged.exists_row mem
    have entries (c : ℕ) : row'[σ.symm c]? = row[c]? := by rw [entries, σ.apply_symm_apply]
    have named' : textAt (σ.symm col) row' = some id := by rw [textAt, entries, ← textAt, named]
    rw [parameter_eq_rowValues distinct mem named,
      parameter_eq_rowValues (texts.nodup_iff.mpr distinct) mem' named', rowValues, rowValues,
      List.mapM_map]
    simp only [Function.comp_def, entries]
  · rw [parameter_eq_missing present, parameter_eq_missing (mt texts.mem_iff.mp present)]

end Parameters

section Keywords

variable {α : Type} {t t' : Table α} (same : ∀ name, t'.findKeyword? name = t.findKeyword? name)
include same

theorem keyword_congr (name : String) : keyword t' name = keyword t name := by
  rw [keyword, same, keyword]

theorem readKeyword_congr {β : Type} (read? : String → Option β) (name : String) :
    readKeyword read? t' name = readKeyword read? t name := by
  rw [readKeyword, keyword_congr same, readKeyword]

theorem readKeyword?_congr {β : Type} (read? : String → Option β) (name : String) :
    readKeyword? read? t' name = readKeyword? read? t name := by
  rw [readKeyword?, same, readKeyword_congr same, readKeyword?]

theorem readInks_congr : readInks t' = readInks t := by
  simp only [readInks, keyword_congr same]

theorem readOrder_congr : readOrder t' = readOrder t := by
  simp only [readOrder, readKeyword_congr same]

theorem readShaped_congr : readShaped t' = readShaped t := by
  rw [readShaped, same, readShaped]

variable [Scalar α] [Numeral α]

theorem readSpectral_congr : readSpectral t' = readSpectral t := by
  simp only [readSpectral, readKeyword_congr same, same]

theorem readBlackSettings_congr : readBlackSettings t' = readBlackSettings t := by
  simp only [readBlackSettings, readKeyword?_congr same]

end Keywords

section Columns

variable {α : Type} {t t' : Table α} {place : ℕ → ℕ}

theorem findFieldsFrom_map {name : ℕ → String}
    (found : ∀ i, t'.findField? (name i) = (t.findField? (name i)).map place) (cols : Array ℕ)
    (count : ℕ) :
    t'.findFieldsFrom name (cols.map place) count =
      (t.findFieldsFrom name cols count).map (List.map place) := by
  induction count generalizing cols with
  | zero => simp [Table.findFieldsFrom, Except.map]
  | succ count ih =>
      rw [Table.findFieldsFrom, Array.size_map, found, Table.findFieldsFrom]
      cases t.findField? (name cols.size) with
      | none => rfl
      | some c => rw [Option.map_some, ← ih, Array.map_push]

variable (found : ∀ name, t'.findField? name = (t.findField? name).map place)
include found

theorem column_map (name : String) : column t' name = (column t name).map place := by
  rw [column, found, column]
  cases t.findField? name <;> rfl

theorem mapM_column_map (names : List String) :
    names.mapM (column t') = (names.mapM (column t)).map (List.map place) :=
  mapM_eq_map_mapM fun name _ => column_map found name

theorem spectralColumns_map [Scalar α] (spectral : Option (SpectralShape α)) :
    spectralColumns t' spectral = (spectralColumns t spectral).map (List.map place) := by
  cases spectral with
  | none => rfl
  | some s =>
      have all := findFieldsFrom_map (fun i => found (spectralField s i)) #[] s.bands
      rw [Array.map_empty] at all
      rw [spectralColumns, spectralColumns, all]
      cases t.findFieldsFrom (spectralField s) #[] s.bands <;> rfl

omit found in
theorem findField?_of_column {name : String} {col : ℕ} (h : column t name = .ok col) :
    t.findField? name = some col := by
  rw [column] at h
  split at h
  · rename_i found
    cases h
    exact found
  · cases h

end Columns

section Reading

variable {α : Type} [Scalar α] [Numeral α] {t t' : Table α} {σ : Equiv.Perm ℕ}

theorem readParts_arranged (arranged : t'.Arranges σ t) (wf : t.WellFormed)
    (distinct : ∀ col, t.findField? idField = some col → (t.texts col).Nodup) :
    readParts t' = readParts t := by
  have keywords := arranged.findKeyword?_eq wf.keywords
  have fields := arranged.findField?_eq_map wf.fields
  simp only [readParts, readInks_congr keywords, readOrder_congr keywords,
    readShaped_congr keywords, readKeyword?_congr keywords, readSpectral_congr keywords, keywords,
    column_map fields, mapM_column_map fields, spectralColumns_map fields, fields,
    Option.isSome_map]
  refine bind_congr fun inks => bind_congr fun order => bind_congr fun shaped =>
    bind_congr fun limit => bind_congr fun spectral => ?_
  cases idColumn : column t idField with
  | error e => rfl
  | ok col =>
      have distinct : (t.texts col).Nodup := distinct col (findField?_of_column idColumn)
      generalize (if (t.findField? "XYZ_X").isSome = true then ColorEncoding.xyz else .lab) = enc
      cases enc.fields.mapM (column t) with
      | error e => rfl
      | ok colors =>
          cases spectralColumns t spectral with
          | error e => rfl
          | ok bands =>
              have values := parameter_arranged arranged distinct (colors ++ bands)
              simp only [Except.map, bind, Except.bind, ← List.map_append, values, List.length_map]

end Reading

end ModelFile

variable {α : Type} [Scalar α] [Numeral α] {t t' : Cgats.Table α} {σ : Equiv.Perm ℕ}

/-- A model and its settings, or the error, are the same for the data sets, the fields and the
keywords of its table in any order. -/
theorem Model.ofFile_arranged (solver : Solver α) (wf : t.WellFormed)
    (distinct : ∀ col, t.findField? ModelFile.idField = some col → (t.texts col).Nodup)
    (arranged : t'.Arranges σ t) (rest : Cgats.File α) :
    ModelFile.read (t' :: rest) = ModelFile.read (t :: rest) ∧
      Model.ofFile solver (t' :: rest) = Model.ofFile solver (t :: rest) := by
  have read : ModelFile.read (t' :: rest) = ModelFile.read (t :: rest) := by
    rw [ModelFile.read, ModelFile.read, arranged.kind,
      ModelFile.readParts_arranged arranged wf distinct,
      ModelFile.readBlackSettings_congr (arranged.findKeyword?_eq wf.keywords)]
  exact ⟨read, by rw [Model.ofFile, read, Model.ofFile]⟩

/-- Turns the first `n` places around. -/
def turn (n : ℕ) : Equiv.Perm ℕ :=
  Function.Involutive.toPerm (fun i => if i < n then n - 1 - i else i) fun i => by grind

theorem getElem?_reverse_eq_turn {β : Type} (xs : Array β) (i : ℕ) :
    xs.reverse[i]? = xs[turn xs.size i]? := by
  change _ = xs[if i < xs.size then xs.size - 1 - i else i]?
  split
  · rename_i inside
    rw [Array.getElem?_reverse inside]
  · rename_i outside
    rw [Array.getElem?_eq_none (by simpa using outside), Array.getElem?_eq_none (not_lt.mp outside)]

/-- A table from behind. -/
def Cgats.Table.turned {α : Type} (t : Table α) : Table α where
  kind := t.kind
  keywords := t.keywords.reverse
  fields := t.fields.reverse
  rows := t.rows.reverse.map Array.reverse

omit [Scalar α] [Numeral α] in
theorem turned_arranges (wf : t.WellFormed) : t.turned.Arranges (turn t.fields.size) t where
  kind := rfl
  keywords := List.reverse_perm _
  fields := getElem?_reverse_eq_turn t.fields
  rows := by
    refine ⟨t.rows.toList.reverse, List.reverse_perm _, ?_⟩
    rw [Cgats.Table.turned, Array.toList_map, Array.toList_reverse, List.forall₂_map_left_iff,
      List.forall₂_same]
    intro row mem i
    rw [← wf.row_size (Array.mem_toList_iff.mp (List.mem_reverse.mp mem))]
    exact getElem?_reverse_eq_turn row i

theorem texts_modelTable (enc : ColorEncoding) (m : Model α) :
    (ModelFile.modelTable enc m).texts 0 = ModelFile.ids m.parts.layout := by
  change (ModelFile.parameterRows enc m.parts).filterMap ModelFile.rowId = _
  have same := congrArg (List.filterMap id) (ModelFile.map_rowId_parameterRows enc m.parts)
  simpa [List.filterMap_map] using same

attribute [local instance] Numeral.whole

theorem ofFile_arranged_greyModel :
    ∃ u, ModelFile.read [(ModelFile.modelTable .xyz (greyModel : Model ℝ)).turned] =
      .ok ({ greyLamp with limit := greyModel.limit }, u) := by
  have nodup : (ModelFile.fieldNames .xyz (greyLamp : Parts ℝ).spectral).Nodup :=
    ModelFile.fieldNames_nodup greyLamp_storable.spectral
  have wf : (ModelFile.modelTable .xyz (greyModel : Model ℝ)).WellFormed :=
    ModelFile.modelTable_wellFormed greyLamp_valid nodup
  have names :
      ((ModelFile.modelTable .xyz (greyModel : Model ℝ)).fields.toList.map Cgats.Field.name)[0]? =
        some ModelFile.idField := by
    rw [ModelFile.modelTable, ModelFile.map_name_modelFields]
    rfl
  have distinct (col : ℕ)
      (found : (ModelFile.modelTable .xyz (greyModel : Model ℝ)).findField? ModelFile.idField =
        some col) : ((ModelFile.modelTable .xyz (greyModel : Model ℝ)).texts col).Nodup := by
    rw [Cgats.Table.findField?_eq wf.fields names, Option.some.injEq] at found
    rw [← found, texts_modelTable]
    exact ModelFile.ids_nodup _
  obtain ⟨u, read, -⟩ := ModelFile.read_modelTable (Numeral.whole_faithful greyModel_numbers)
    greyLamp_valid nodup greyLamp_storable.laidOut
    (InkSet.exists_ofLetters_iff.mp greyLamp_storable.inks) ⟨by decide, by decide⟩
  have same := Model.ofFile_arranged stillSolver wf distinct (turned_arranges wf) []
  exact ⟨u, same.1.trans read⟩

end InkModel
