import InkModel.Proofs.Cgats.RoundTrip
import InkModel.Proofs.Profile.Fields
import InkModel.Proofs.Profile.Model

/-! # Models and their files

A model reads back from the text of its file: with the same parameters, but for a
limit that does not constrain the device, and so with the same colours and the
same white and black points.
-/

namespace InkModel

open Cgats

namespace ModelFile

section Table

variable {α : Type} [Scalar α] {enc : ColorEncoding}

theorem parameterRows_length (enc : ColorEncoding) (p : Parts α) :
    (parameterRows enc p).length = (ids p.layout).length := by
  simpa using congrArg List.length (map_rowId_parameterRows enc p)

theorem parameterRows_length_le (enc : ColorEncoding) {p : Parts α} (valid : p.Valid) :
    (parameterRows enc p).length ≤ maxInks * maxOrder + maxInks * 2 ^ maxInks + 2 ^ maxInks := by
  have channels : p.layout.channels ≤ maxInks := valid.inks
  have combinations : p.layout.combinations ≤ 2 ^ maxInks :=
    Nat.pow_le_pow_right (by decide) channels
  have slots : p.layout.slotsPerChannel ≤ 2 ^ maxInks := by
    rw [Layout.slotsPerChannel]
    split
    · exact (Nat.div_le_self _ _).trans combinations
    · exact Nat.zero_le _
  rw [parameterRows_length, ids, List.length_append, List.length_append, transferIds_length,
    shapeIds_length, primaryIds_length]
  exact Nat.add_le_add (Nat.add_le_add (Nat.mul_le_mul channels valid.order.2)
    (Nat.mul_le_mul channels slots)) combinations

/-- There is always the primary of paper. -/
theorem parameterRows_ne_nil (enc : ColorEncoding) (p : Parts α) : parameterRows enc p ≠ [] := by
  have := parameterRows_length enc p
  have positive : 0 < p.layout.combinations := Nat.two_pow_pos _
  rw [ids, List.length_append, primaryIds_length] at this
  intro none
  rw [none, List.length_nil] at this
  omega

/-- The columns of the bands are those of the colour and of the spectrum. -/
theorem bandColumns_eq {p : Parts α} (valid : p.Valid) :
    [1, 2, 3] ++ (List.range (spectralFields p.spectral).length).map (· + 4) = bandColumns p := by
  rw [bandColumns, valid.bandCount, spectralFields_length, xyzBands, List.range_add,
    List.map_append, List.map_map]
  congr 1
  apply List.map_congr_left
  intro i _
  simp [Nat.add_comm, Nat.add_left_comm]

variable [Numeral α] {m : Model α}

theorem modelTable_wellFormed (valid : m.parts.Valid)
    (nodup : (fieldNames enc m.parts.spectral).Nodup) : (modelTable enc m).WellFormed where
  keywords := (header_wellFormed m).keywords
  fields := by
    rw [modelTable, map_name_modelFields]
    exact nodup
  rows := fun _ mem => types_of_mem_parameterRows valid (List.mem_toArray.mp mem)

end Table

section Stored

variable [Numeral ℝ] {m : Model ℝ} {enc : ColorEncoding}
variable (faithful : Numeral.Faithful ℝ (· ∈ numbers enc m))
variable (valid : m.parts.Valid)
include faithful valid

theorem modelTable_writable (quotable : m.parts.Quotable) :
    (modelTable enc m).Writable (· ∈ numbers enc m) where
  kind := by
    rw [modelTable, header_kind]
    decide
  keywordNames := fun k mem => by
    refine headerKeys_writable k.1 ?_
    rw [← map_fst_headerEntries m]
    exact List.mem_map.mpr ⟨_, mem_keywords_header mem, rfl⟩
  keywordValues := fun k mem =>
    headerEntries_quotable faithful quotable _ (mem_keywords_header mem) k.2 rfl
  fieldNames := fun f mem => by
    refine fieldNames_word enc m.parts.spectral f.name ?_
    rw [← map_name_modelFields]
    exact List.mem_map_of_mem (Array.mem_toList_iff.mpr mem)
  someField := by simp [modelTable, modelFields]
  someSet := .inl (by simpa [modelTable] using parameterRows_ne_nil enc m.parts)
  cells := fun row mem c hc => by
    have mem : row ∈ parameterRows enc m.parts := List.mem_toArray.mp mem
    obtain ⟨id, hid, values, _, same⟩ := mem_parameterRows mem
    cases c with
    | real x => exact .real (mem_numbers_of_row mem hc)
    | text s =>
        have own : s = id := by simpa [same, parameterRow] using hc
        exact .text (own ▸ isQuotable_id hid)
  fieldCount := by
    have spectral := valid.spectral
    have size : (modelTable enc m).fields.size = 1 + (xyzBands + m.parts.spectralBands) := by
      simp [modelTable, modelFields, encoding_fields_length, spectralFields_length]
      omega
    unfold maxBands at spectral
    unfold xyzBands at size
    unfold Decimal.countBound
    omega
  setCount := by
    have rows := parameterRows_length_le enc valid
    have size : (modelTable enc m).rows.size = (parameterRows enc m.parts).length := by
      simp [modelTable]
    unfold maxInks maxOrder at rows
    unfold Decimal.countBound
    omega

variable (nodup : (fieldNames enc m.parts.spectral).Nodup)
include nodup

theorem readText_render_modelTable (quotable : m.parts.Quotable) :
    readText (render [modelTable enc m]) = .ok [modelTable enc m] := by
  apply readText_render_of_wellFormed faithful (List.cons_ne_nil _ _)
  · intro t mem
    rw [List.mem_singleton.mp mem]
    exact modelTable_wellFormed valid nodup
  · intro t mem
    rw [List.mem_singleton.mp mem]
    exact modelTable_writable faithful valid quotable

variable (laid : m.parts.LaidOut) (named : m.parts.inks.named = m.parts.inks)
include laid named

theorem readParts_modelTable :
    readParts (modelTable enc m) = .ok { m.parts with limit := m.limit } := by
  have fields : (modelTable enc m).fields = modelFields enc m.parts.spectral := rfl
  have rows : (modelTable enc m).rows = (parameterRows enc m.parts).toArray := rfl
  have keywords : (modelTable enc m).keywords = (header m).keywords := rfl
  have layout : (⟨m.parts.inks.count, m.parts.order, m.parts.shaped⟩ : Layout) =
      m.parts.layout := rfl
  have limit : (m.limit.map (· * 100)).map (· / 100) = m.limit := by
    have percent (l : ℝ) : l * 100 / 100 = l := mul_div_cancel_right₀ l (by norm_num)
    simp [Function.comp_def, percent]
  have inks : readInks (modelTable enc m) = .ok m.parts.inks := by
    rw [readInks_header keywords, if_pos named]
  simp only [readParts, bind, Except.bind, inks,
    readOrder_header keywords valid, readShaped_header keywords,
    readLimit_header keywords faithful, readSpectral_laidOut keywords faithful valid laid,
    column_eq_ok fields nodup (i := 0) rfl, encoding_eq fields, colorColumns_eq fields nodup,
    spectralColumns_eq fields nodup, bandColumns_eq valid, layout, parameterTable_transfer rows,
    parameterTable_shape rows,
    parameterTable_primaries rows (decodePrimaries_encodePrimaries enc)]
  have count : (bandColumns m.parts).length = m.parts.bands.size := by simp [bandColumns]
  rw [findKeyword?_header keywords 5 rfl, findKeyword?_header keywords 2 rfl, count,
    bands_eq valid.bands]
  exact congrArg (fun limit => Except.ok { m.parts with limit }) limit

theorem read_modelTable (tuning : m.tuning.Storable) :
    ∃ u, read [modelTable enc m] = .ok ({ m.parts with limit := m.limit }, u) ∧
    u.SameBlack m.tuning := by
  obtain ⟨u, settings, same⟩ := readBlackSettings_header (t := modelTable enc m) rfl faithful tuning
  have kind : (modelTable enc m).kind = modelKind := header_kind m
  have parts := readParts_modelTable faithful valid nodup laid named
  refine ⟨u, ?_, same⟩
  rw [read, if_neg (not_not.mpr kind)]
  simp only [parts, settings, bind, Except.bind]
  rfl

end Stored

end ModelFile

namespace Model

section Build

variable {α : Type} [Scalar α] {solver : Solver α} {parts : Parts α} {tuning : Tuning α}
variable {built : Model α}

/-- What a model keeps in a file: everything but the light source of its lookups
and a limit that does not constrain the device. -/
structure Kept (built back : Model α) : Prop where
  parts : back.parts = { built.parts with limit := built.limit }
  limit : back.limit = built.limit
  settings : back.tuning.SameBlack built.tuning
  lookup : ∀ dev, back.lookup dev = built.lookup dev
  neutrals : back.neutrals = built.neutrals

/-- A model that is built from the same parameters without their idle limit. -/
theorem build_kept (h : build solver parts tuning = .ok built) {u : Tuning α}
    (settings : u.SameBlack tuning) :
    ∃ back, build solver { parts with limit := built.limit } u = .ok back ∧ Kept built back := by
  obtain ⟨valid, response, sameTuning, found⟩ := of_build h
  have limit : built.limit = effectiveLimit parts.limit parts.inks.count := by
    rw [response]
    rfl
  have again : effectiveLimit built.limit parts.inks.count = built.limit := by
    rw [limit, effectiveLimit_effectiveLimit]
  have neutrals : findNeutrals solver ⟨{ parts with limit := built.limit }, none⟩ u =
      .ok built.neutrals := by
    rw [findNeutrals_limit (again.trans limit) solver settings, found]
  refine ⟨_, build_eq_ok (limit ▸ valid.effective) neutrals, ?_, again, ?_, fun dev => ?_, rfl⟩
  · rw [response]
  · rw [sameTuning]
    exact settings
  · rw [response]
    exact congrFun Response.lookup_limit dev

end Build

section File

variable [Numeral ℝ] {solver : Solver ℝ} {parts : Parts ℝ} {tuning : Tuning ℝ}

/-- A model reads back from the text of its file, whatever light source its
lookups are under and however its primaries are written. -/
theorem ofFile_readText_toFile {built m : Model ℝ} (build : build solver parts tuning = .ok built)
    (reached : Reached solver built m) (storable : parts.Storable) (counts : tuning.Storable)
    (enc : ColorEncoding) (faithful : Numeral.Faithful ℝ (· ∈ ModelFile.numbers enc m)) :
    ∃ file back, m.toFile enc = .ok file ∧ Cgats.readText (Cgats.render file) = .ok file ∧
      ofFile solver file = .ok back ∧ Kept built back := by
  obtain ⟨valid, response, sameTuning, -⟩ := of_build build
  obtain ⟨sameParts, keptTuning⟩ := reached.keeps
  have own : m.parts = parts := by rw [sameParts, response]
  have limit : m.limit = built.limit := by
    rw [Response.limit, Response.channels, sameParts]
    rfl
  subst own
  rw [← sameTuning, ← keptTuning] at counts
  have nodup : (ModelFile.fieldNames enc m.parts.spectral).Nodup :=
    ModelFile.fieldNames_nodup storable.spectral
  have named := InkSet.exists_ofLetters_iff.mp storable.inks
  obtain ⟨u, read, settings⟩ :=
    ModelFile.read_modelTable faithful valid nodup storable.laidOut named counts
  rw [keptTuning, sameTuning] at settings
  obtain ⟨back, rebuilt, kept⟩ := build_kept build settings
  refine ⟨[ModelFile.modelTable enc m], back, ?_,
    ModelFile.readText_render_modelTable faithful valid nodup storable.quotable, ?_, kept⟩
  · rw [toFile, ModelFile.toTable_eq_ok valid nodup]
    rfl
  · rw [ofFile, read, limit]
    exact rebuilt

end File

end Model

/-- Real numbers by the digits of their whole part, for files that hold whole numbers only. -/
@[reducible] noncomputable def Numeral.whole : Numeral ℝ where
  text x := ⌊x⌋₊.repr
  read? s := (Decimal.readCount s).map Nat.cast
  places _ x := ⌊x⌋₊.repr

attribute [local instance] Numeral.whole

theorem Numeral.whole_faithful {number : ℝ → Prop}
    (natural : ∀ x, number x → ∃ n < Decimal.countBound, x = (n : ℕ)) :
    Numeral.Faithful ℝ number where
  reads := fun x h => by
    obtain ⟨n, bound, rfl⟩ := natural x h
    change (Decimal.readCount ⌊(n : ℝ)⌋₊.repr).map Nat.cast = some (n : ℝ)
    rw [Nat.floor_natCast, Decimal.readCount_repr bound, Option.map_some]
  chars := fun _ _ => (Decimal.isWord_repr _).chars
  uncommented := fun _ _ => (Decimal.isWord_repr _).uncommented
  empty := rfl
  endOfData := rfl

/-- A grey display with a spectrum of two bands. -/
def greyLamp {α : Type} [Scalar α] : Parts α where
  inks := ⟨2 ^ 8, true, by decide, by decide⟩
  limit := some (1 / 2)
  order := 1
  shaped := true
  spectral := some ⟨2, 400, 700, 100⟩
  instrument := some "lamp meter"
  created := none
  bands := #[⟨#[1], #[2], #[0, 96]⟩, ⟨#[1], #[0], #[0, 100]⟩, ⟨#[1], #[0], #[1, 82]⟩,
    ⟨#[0], #[3], #[0, 70]⟩, ⟨#[2], #[0], #[5, 90]⟩]

theorem greyLamp_valid : (greyLamp : Parts ℝ).Valid where
  inks := by decide
  order := by decide
  spectral := by decide
  bandCount := rfl
  bands := by
    intro b mem
    simp only [greyLamp, List.mem_toArray, List.mem_cons, List.not_mem_nil, or_false] at mem
    rcases mem with rfl | rfl | rfl | rfl | rfl <;> exact ⟨rfl, rfl, rfl⟩
  limit := by
    intro l h
    cases h
    rw [Scalar.real_zero, Scalar.real_one, Scalar.real_ofNat]
    exact one_half_pos

theorem greyLamp_storable : (greyLamp : Parts ℝ).Storable where
  inks := ⟨"W", rfl⟩
  spectral := by
    intro s h
    cases h
    constructor
    · rw [SpectralShape.make, if_neg (by decide), if_pos (by norm_num),
        if_pos (by rw [Scalar.real_zero]; norm_num)]
    · norm_num
    · norm_num
    · change (1 : ℝ) ≤ (700 - 400) / ((1 : ℕ) : ℝ)
      norm_num
  instrument := by
    intro s h
    cases h
    decide
  created := by
    intro s h
    cases h

/-- The model of the display, with an unusual setting of a search that it never runs. -/
def greyModel {α : Type} [Scalar α] : Model α :=
  ⟨⟨greyLamp, none⟩, { Tuning.default with neutralWeight := 12 }, displayNeutrals ⟨greyLamp, none⟩⟩

theorem greyLamp_values :
    ((ModelFile.parameterRows .xyz (greyLamp : Parts ℝ)).flatMap fun row =>
      row.toList.filterMap Cell.asReal?) =
    ([1, 1, 1, 0, 2, 2, 0, 0, 3, 0, 0, 0, 1, 0, 5, 96, 100, 82, 70, 90] : List ℕ).map Nat.cast :=
  rfl

theorem greyModel_numbers :
    ∀ x ∈ ModelFile.numbers .xyz (greyModel : Model ℝ), ∃ n < Decimal.countBound, x = (n : ℕ) := by
  intro x mem
  rcases List.mem_append.mp mem with header | row
  · rw [List.reduceOption_mem_iff] at header
    simp only [ModelFile.headerValues, List.mem_cons, List.not_mem_nil, or_false] at header
    rcases header with limit | neutral | range | fail | start | last | norm
    · obtain ⟨l, given, rfl⟩ := Option.map_eq_some_iff.mp limit.symm
      cases effectiveLimit_eq_some given
      refine ⟨50, by decide, ?_⟩
      simp only [Scalar.real_one, Scalar.real_ofNat]
      norm_num
    · obtain ⟨rfl, -⟩ := Option.guard_eq_some_iff.mp neutral.symm
      exact ⟨12, by decide, rfl⟩
    · obtain ⟨rfl, -⟩ := Option.guard_eq_some_iff.mp range.symm
      exact ⟨200, by decide, rfl⟩
    · obtain ⟨rfl, -⟩ := Option.guard_eq_some_iff.mp fail.symm
      exact ⟨1000, by decide, rfl⟩
    · cases start
      exact ⟨400, by decide, rfl⟩
    · cases last
      exact ⟨700, by decide, rfl⟩
    · cases norm
      exact ⟨100, by decide, rfl⟩
  · have row : x ∈ List.map Nat.cast _ := greyLamp_values ▸ row
    obtain ⟨n, value, rfl⟩ := List.mem_map.mp row
    have bound : ∀ n ∈ [1, 1, 1, 0, 2, 2, 0, 0, 3, 0, 0, 0, 1, 0, 5, 96, 100, 82, 70, 90],
        n < Decimal.countBound := by decide
    exact ⟨n, bound n value, rfl⟩

theorem ofFile_readText_toFile_greyModel :
    ∃ file back, (greyModel : Model ℝ).toFile .xyz = .ok file ∧
      Cgats.readText (Cgats.render file) = .ok file ∧
      Model.ofFile stillSolver file = .ok back ∧ Model.Kept greyModel back :=
  Model.ofFile_readText_toFile (Model.build_eq_ok greyLamp_valid rfl) .built greyLamp_storable
    ⟨by decide, by decide⟩ .xyz (Numeral.whole_faithful greyModel_numbers)

end InkModel
