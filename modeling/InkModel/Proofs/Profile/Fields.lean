import InkModel.Proofs.Profile.Header

/-! # The fields of a model file

The field of a spectral band is named for its whole wavelength. Bands at least one
nanometre apart have different whole wavelengths, so all names are distinct.
-/

namespace InkModel

open Cgats

namespace Decimal

theorem digitsValue_padded (width n : ℕ) : digitsValue (padded width n).toList = n := by
  have zeros (k : ℕ) (ds : List Char) :
      digitsValue (List.replicate k '0' ++ ds) = digitsValue ds := by
    induction k with
    | zero => rfl
    | succ k ih => exact ih
  rw [padded, String.toList_append, String.toList_ofList, zeros, Nat.toList_repr,
    digitsValue_toDigits]

theorem isWordChar_padded (width n : ℕ) : ∀ c ∈ (padded width n).toList, isWordChar c = true := by
  intro c mem
  rw [padded, String.toList_append, String.toList_ofList] at mem
  rcases List.mem_append.mp mem with zero | digit
  · rw [(List.mem_replicate.mp zero).2]
    decide
  · exact isWordChar_of_isDigit (isDigit_of_mem_repr digit)

end Decimal

theorem threeDigits_injective {a b : ℤ} (ha : 0 ≤ a) (hb : 0 ≤ b)
    (h : threeDigits a = threeDigits b) : a = b := by
  rw [threeDigits, threeDigits, if_neg ha.not_gt, if_neg hb.not_gt] at h
  have := congrArg (fun s => Decimal.digitsValue s.toList) h
  simp only [Decimal.digitsValue_padded] at this
  omega

theorem isWordChar_threeDigits (n : ℤ) : ∀ c ∈ (threeDigits n).toList, isWordChar c = true := by
  intro c mem
  rw [threeDigits] at mem
  split at mem
  · rw [String.toList_append] at mem
    rcases List.mem_append.mp mem with sign | digit
    · rw [List.mem_singleton.mp sign]
      decide
    · exact Decimal.isWordChar_padded _ _ c digit
  · exact Decimal.isWordChar_padded _ _ c mem

namespace SpectralShape

variable {s : SpectralShape ℝ}

/-- The whole wavelength of a band. -/
noncomputable def wholeNm (s : SpectralShape ℝ) (i : ℕ) : ℤ :=
  Scalar.trunc (Scalar.round (s.wavelength i))

theorem wavelength_nonneg (h : s.Storable) (i : ℕ) : 0 ≤ s.wavelength i := by
  have step : 0 ≤ s.step := zero_le_one.trans h.step
  exact add_nonneg h.low (mul_nonneg step (Nat.cast_nonneg i))

theorem wavelength_succ (s : SpectralShape ℝ) (i : ℕ) :
    s.wavelength (i + 1) = s.wavelength i + s.step := by
  change s.startNm + s.step * ((i + 1 : ℕ) : ℝ) = s.startNm + s.step * (i : ℝ) + s.step
  push_cast
  ring

theorem wholeNm_eq (h : s.Storable) (i : ℕ) : s.wholeNm i = ⌊s.wavelength i + 0.5⌋ := by
  have round : Scalar.round (s.wavelength i) = ((⌊s.wavelength i + 0.5⌋ : ℤ) : ℝ) :=
    if_pos (wavelength_nonneg h i)
  rw [wholeNm, round, Scalar.real_trunc_intCast]

theorem wholeNm_nonneg (h : s.Storable) (i : ℕ) : 0 ≤ s.wholeNm i := by
  rw [wholeNm_eq h, Int.floor_nonneg]
  linarith [wavelength_nonneg h i]

theorem wholeNm_strictMono (h : s.Storable) : StrictMono s.wholeNm := by
  apply strictMono_nat_of_lt_succ
  intro i
  rw [wholeNm_eq h, wholeNm_eq h, wavelength_succ, ← Int.add_one_le_iff, Int.le_floor]
  push_cast
  linarith [Int.floor_le (s.wavelength i + 0.5), h.step]

end SpectralShape

namespace ModelFile

section Table

variable {α : Type} [Scalar α]

/-- The names of all fields. -/
def fieldNames (enc : ColorEncoding) (spectral : Option (SpectralShape α)) : List String :=
  idField :: (enc.fields ++ spectralFields spectral)

/-- The fields of a model file. -/
def modelFields (enc : ColorEncoding) (spectral : Option (SpectralShape α)) : Array Field :=
  (⟨idField, .text⟩ ::
    (enc.fields ++ spectralFields spectral).map fun name => ⟨name, .real⟩).toArray

theorem map_name_modelFields (enc : ColorEncoding) (spectral : Option (SpectralShape α)) :
    (modelFields enc spectral).toList.map Field.name = fieldNames enc spectral := by
  simp [modelFields, fieldNames, Function.comp_def]

theorem spectralFields_length (p : Parts α) :
    (spectralFields p.spectral).length = p.spectralBands := by
  rw [Parts.spectralBands]
  cases p.spectral with
  | none => rfl
  | some s => simp [spectralFields]

theorem encoding_fields_length (enc : ColorEncoding) : enc.fields.length = xyzBands := by
  cases enc <;> rfl

/-- The values of a data set are those of the fields. -/
theorem types_of_mem_parameterRows {enc : ColorEncoding} {p : Parts α} (valid : p.Valid)
    {row : Array (Cell α)} (mem : row ∈ parameterRows enc p) :
    row.map Cell.type = (modelFields enc p.spectral).map Field.type := by
  obtain ⟨id, _, values, size, rfl⟩ := mem_parameterRows mem
  have fields : (enc.fields ++ spectralFields p.spectral).length = values.length := by
    rw [List.length_append, encoding_fields_length, spectralFields_length, size, valid.bandCount]
  have reals : values.map (Cell.type ∘ Cell.real) =
      (enc.fields ++ spectralFields p.spectral).map (Field.type ∘ fun name => ⟨name, .real⟩) := by
    change values.map (fun _ => FieldType.real) = List.map (fun _ => FieldType.real) _
    rw [List.map_const', List.map_const', fields]
  rw [parameterRow, modelFields, List.map_toArray, List.map_toArray, List.map_cons, List.map_cons,
    List.map_map, List.map_map, reals]
  rfl

variable [Numeral α]

/-- The table of a model. -/
def modelTable (enc : ColorEncoding) (m : Model α) : Table α :=
  { header m with
    fields := modelFields enc m.parts.spectral
    rows := (parameterRows enc m.parts).toArray }

theorem toTable_eq_ok {enc : ColorEncoding} {m : Model α} (valid : m.parts.Valid)
    (nodup : (fieldNames enc m.parts.spectral).Nodup) :
    toTable enc m = .ok (modelTable enc m) := by
  have id : (header m).addField idField .text =
      .ok { header m with fields := #[⟨idField, .text⟩] } := by
    rw [Table.addField_eq_ok (header_rows m) (by simp [header_fields]) .text, header_fields]
    rfl
  have names : ((#[⟨idField, .text⟩] : Array Field).toList.map Field.name ++
      (enc.fields ++ spectralFields m.parts.spectral)).Nodup := nodup
  have columns := Table.addFields_eq_ok
    (t := { header m with fields := #[⟨idField, .text⟩] }) (header_rows m) .real names
  have sets := Table.addSets_eq_ok
    (t := { header m with fields := modelFields enc m.parts.spectral })
    fun row mem => types_of_mem_parameterRows valid mem
  have all : #[⟨idField, .text⟩] ++
      ((enc.fields ++ spectralFields m.parts.spectral).map fun name => ⟨name, .real⟩).toArray =
      modelFields enc m.parts.spectral := by
    simp [modelFields]
  simp only [toTable, bind, Except.bind, id, columns, all]
  refine sets.trans ?_
  simp [modelTable, header_rows, parameterRows]

end Table

section Columns

variable {α : Type} [Scalar α]

theorem spectralField_ne (s : SpectralShape α) (i : ℕ) {name : String}
    (other : name.toList.head? ≠ some 'S') : name ≠ spectralField s i := by
  rintro rfl
  simp [spectralField] at other

variable {enc : ColorEncoding} {spectral : Option (SpectralShape α)} {t : Table α}
variable (fields : t.fields = modelFields enc spectral)
include fields

/-- The encoding of the primaries is known by the first of its fields. -/
theorem encoding_eq :
    (if (t.findField? "XYZ_X").isSome then ColorEncoding.xyz else ColorEncoding.lab) = enc := by
  cases enc with
  | xyz =>
      refine if_pos ?_
      by_contra absent
      refine Table.findField?_eq_none absent ?_
      rw [fields, map_name_modelFields]
      simp [fieldNames, ColorEncoding.fields]
  | lab =>
      refine if_neg fun present => ?_
      obtain ⟨i, found⟩ := Option.isSome_iff_exists.mp present
      have mem := Table.mem_of_findField? found
      rw [fields, map_name_modelFields, fieldNames, ← List.cons_append] at mem
      rcases List.mem_append.mp mem with first | spec
      · exact absurd first (by decide)
      · cases spectral with
        | none => cases spec
        | some s =>
            obtain ⟨i, _, same⟩ := List.mem_map.mp spec
            exact spectralField_ne s i (by decide) same.symm

variable (nodup : (fieldNames enc spectral).Nodup)
include nodup

theorem findField?_model {i : ℕ} {name : String}
    (here : (fieldNames enc spectral)[i]? = some name) : t.findField? name = some i := by
  rw [← map_name_modelFields, ← fields] at nodup here
  exact Table.findField?_eq nodup here

theorem column_eq_ok {i : ℕ} {name : String} (here : (fieldNames enc spectral)[i]? = some name) :
    column t name = .ok i := by
  rw [column, findField?_model fields nodup here]

theorem colorColumns_eq : enc.fields.mapM (column t) = .ok [1, 2, 3] := by
  apply mapM_eq_ok_iff.mpr
  rw [List.forall₂_iff_get]
  refine ⟨encoding_fields_length enc, fun i hi hi' => ?_⟩
  have here : (fieldNames enc spectral)[i + 1]? = some (enc.fields.get ⟨i, hi⟩) := by
    rw [fieldNames, List.getElem?_cons_succ, List.getElem?_append_left hi]
    exact List.getElem?_eq_getElem hi
  rw [column_eq_ok fields nodup here]
  match i, hi' with
  | 0, _ | 1, _ | 2, _ => rfl

theorem spectralColumns_eq :
    spectralColumns t spectral =
      .ok ((List.range (spectralFields spectral).length).map (· + 4)) := by
  cases spectral with
  | none => rfl
  | some s =>
      have found (i : ℕ) (hi : i < s.bands) : t.findField? (spectralField s i) = some (i + 4) := by
        apply findField?_model fields nodup
        have three := encoding_fields_length enc
        have behind : enc.fields.length ≤ i + 3 := by
          rw [three, xyzBands]
          omega
        rw [fieldNames, List.getElem?_cons_succ, List.getElem?_append_right behind]
        simp [spectralFields, three, xyzBands, hi]
      have all : t.findFieldsFrom (spectralField s) #[] s.bands = _ :=
        Table.findFieldsFrom_eq_ok (· + 4) fun i hi => by simpa using found i hi
      rw [spectralColumns, all]
      simp [Except.mapError, spectralFields, List.range_eq_range']

end Columns

theorem spectralField_injective {s : SpectralShape ℝ} (h : s.Storable) :
    Function.Injective (spectralField s) := by
  intro i j same
  have whole := threeDigits_injective (SpectralShape.wholeNm_nonneg h i)
    (SpectralShape.wholeNm_nonneg h j) ((String.append_right_inj "SPEC_").mp same)
  exact (SpectralShape.wholeNm_strictMono h).injective whole

theorem spectralField_word (s : SpectralShape ℝ) (i : ℕ) :
    IsWord (spectralField s i) ∧ spectralField s i ≠ endFormatWord := by
  have first : IsWord "SPEC_" := by decide
  refine ⟨first.append (isWordChar_threeDigits _), fun same => ?_⟩
  have := congrArg (fun s => s.toList.head?) same
  simp [spectralField, endFormatWord] at this

theorem fieldNames_word (enc : ColorEncoding) (spectral : Option (SpectralShape ℝ)) :
    ∀ name ∈ fieldNames enc spectral, IsWord name ∧ name ≠ endFormatWord := by
  have fixed : ∀ name ∈ idField :: enc.fields, IsWord name ∧ name ≠ endFormatWord := by
    cases enc <;> decide
  intro name mem
  rw [fieldNames, ← List.cons_append] at mem
  rcases List.mem_append.mp mem with first | spec
  · exact fixed name first
  · cases spectral with
    | none => cases spec
    | some s =>
        obtain ⟨i, _, rfl⟩ := List.mem_map.mp spec
        exact spectralField_word s i

theorem fieldNames_nodup {enc : ColorEncoding} {spectral : Option (SpectralShape ℝ)}
    (h : ∀ s, spectral = some s → s.Storable) : (fieldNames enc spectral).Nodup := by
  have fixed : (idField :: enc.fields).Nodup := by
    cases enc <;> decide
  have other : ∀ name ∈ idField :: enc.fields, name.toList.head? ≠ some 'S' := by
    cases enc <;> decide
  rw [fieldNames, ← List.cons_append]
  cases spectral with
  | none => simpa [spectralFields] using fixed
  | some s =>
      rw [List.nodup_append']
      refine ⟨fixed, List.nodup_range.map (spectralField_injective (h s rfl)), ?_⟩
      intro name first spec
      obtain ⟨i, _, same⟩ := List.mem_map.mp spec
      exact spectralField_ne s i (other name first) same.symm

end ModelFile

end InkModel
