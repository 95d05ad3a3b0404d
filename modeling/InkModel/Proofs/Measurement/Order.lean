import InkModel.Proofs.Color.Letters
import InkModel.Proofs.Measurement.Reading

/-! # Measurement files in other words and other orders

Names decide what is read, so the samples depend neither on the places of the columns and keywords
nor on the order in which the description of the device names its inks. A file that cannot be read
fails for the same reason wherever its columns stand.
-/

namespace InkModel

open Cgats

namespace Cgats.Table

variable {α : Type} {t t' : Table α} {σ : Equiv.Perm ℕ}

/-- A table with the keywords of another in any order, and its fields with their cells in the order
`σ`. The data sets keep theirs. -/
structure Reorders (t' : Table α) (σ : Equiv.Perm ℕ) (t : Table α) : Prop where
  kind : t'.kind = t.kind
  keywords : t'.keywords.Perm t.keywords
  fields : ∀ i, t'.fields[i]? = t.fields[σ i]?
  rows : List.Forall₂ (fun row' row => ∀ i, row'[i]? = row[σ i]?) t'.rows.toList t.rows.toList

namespace Reorders

variable (ordered : t'.Reorders σ t)
include ordered

theorem arranges : t'.Arranges σ t :=
  ⟨ordered.kind, ordered.keywords, ordered.fields, t.rows.toList, .refl _, ordered.rows⟩

theorem size_eq : t'.size = t.size := by
  simpa [size] using ordered.rows.length_eq

theorem cell?_eq (row col : ℕ) : t'.cell? row (σ.symm col) = t.cell? row col := by
  rw [cell?, cell?, ← Array.getElem?_toList, ← Array.getElem?_toList]
  cases here : t.rows.toList[row]? with
  | none =>
      have outside : t'.rows.toList[row]? = none := by
        rw [List.getElem?_eq_none_iff] at here ⊢
        exact ordered.rows.length_eq ▸ here
      rw [outside]
      rfl
  | some cells =>
      obtain ⟨cells', here', entries⟩ := exists_getElem?_of_forall₂ ordered.rows.flip here
      rw [here', Option.bind_some, Option.bind_some, entries, σ.apply_symm_apply]

end Reorders

/-- A table with its keywords and fields from behind. -/
def mirrored (t : Table α) : Table α where
  kind := t.kind
  keywords := t.keywords.reverse
  fields := t.fields.reverse
  rows := t.rows.map Array.reverse

theorem mirrored_reorders (wf : t.WellFormed) : t.mirrored.Reorders (turn t.fields.size) t where
  kind := rfl
  keywords := List.reverse_perm _
  fields := getElem?_reverse_eq_turn t.fields
  rows := by
    rw [mirrored, Array.toList_map, List.forall₂_map_left_iff, List.forall₂_same]
    intro row mem i
    rw [← wf.row_size (Array.mem_toList_iff.mp mem)]
    exact getElem?_reverse_eq_turn row i

end Cgats.Table

namespace Measurements

open ModelFile (bandsKey startKey endKey normKey inksKey instrumentKey spectralField)

/-! Tables that hold the same under other names and at other places. -/

section Places

variable {α : Type} {t t' : Table α} {place : ℕ → ℕ}

/-- What stands before the underscore in the name of a colour or a band. -/
def colorPrefixes : List String := ["XYZ", "LAB", "SPEC"]

theorem beforeUnderscore_field {encoding : ColorEncoding} {name : String}
    (mem : name ∈ encoding.fields) : ∃ p ∈ colorPrefixes, beforeUnderscore name = some p := by
  cases encoding <;> revert name <;> decide

theorem beforeUnderscore_spectralField [Scalar α] (shape : SpectralShape α) (i : ℕ) :
    beforeUnderscore (spectralField shape i) = some "SPEC" := by
  have spelled : "SPEC_" = "SPEC" ++ "_" := by decide
  rw [spectralField, spelled]
  exact beforeUnderscore_append (by decide) _

/-- One table holds the colours of another, its columns at places of their own. -/
structure SameColors (t' t : Table α) (place : ℕ → ℕ) : Prop where
  size : t'.size = t.size
  keyword : ∀ name, name ≠ inksKey → t'.findKeyword? name = t.findKeyword? name
  field : ∀ name p, p ∈ colorPrefixes → beforeUnderscore name = some p →
    t'.findField? name = (t.findField? name).map place
  value : ∀ row col, t'.real? row (place col) = t.real? row col

namespace SameColors

variable (same : SameColors t' t place)
include same

theorem field_of_encoding {encoding : ColorEncoding} {name : String}
    (mem : name ∈ encoding.fields) : t'.findField? name = (t.findField? name).map place := by
  obtain ⟨p, own, named⟩ := beforeUnderscore_field mem
  exact same.field name p own named

theorem encodingOf_eq : encodingOf t' = encodingOf t := by
  have xyz := same.field "XYZ_X" "XYZ" (by decide) (by decide)
  have lab := same.field "LAB_L" "LAB" (by decide) (by decide)
  simp only [encodingOf, xyz, lab, Option.isSome_map]

theorem colorColumns_eq (encoding : ColorEncoding) : encoding.fields.mapM (column t') =
    (encoding.fields.mapM (column t)).map (List.map place) := by
  refine mapM_eq_map_mapM fun name mem => ?_
  rw [column, same.field_of_encoding mem, column]
  cases t.findField? name <;> rfl

theorem numbers_eq (row : ℕ) (cols : List ℕ) :
    numbers t' row (cols.map place) = numbers t row cols := by
  simp only [numbers, List.mapM_map, Function.comp_def, same.value]

theorem spectrumColumns_eq [Scalar α] (spectral : Option (SpectralShape α)) :
    spectrumColumns t' spectral = (spectrumColumns t spectral).map (List.map place) := by
  cases spectral with
  | none => rfl
  | some shape =>
      have all := ModelFile.findFieldsFrom_map (fun i => same.field (spectralField shape i) "SPEC"
        (by decide) (beforeUnderscore_spectralField shape i)) #[] shape.bands
      rw [Array.map_empty] at all
      rw [spectrumColumns, spectrumColumns, all]
      cases t.findFieldsFrom (spectralField shape) #[] shape.bands <;> rfl

theorem sampleOf_eq [Scalar α] (device color spectrum : List ℕ) (encoding : ColorEncoding)
    (spectral : Option (SpectralShape α)) :
    sampleOf t' ⟨device.map place, color.map place, encoding, spectrum.map place, spectral⟩ =
      sampleOf t ⟨device, color, encoding, spectrum, spectral⟩ := by
  funext row
  simp only [sampleOf, same.numbers_eq]

variable [Numeral α]

theorem number_eq {name : String} (other : name ≠ inksKey) : number t' name = number t name := by
  rw [number, same.keyword name other, number]

theorem spectralOf_eq [Scalar α] : spectralOf t' = spectralOf t := by
  have bands : bandsKey ≠ inksKey := by decide
  have startNm : startKey ≠ inksKey := by decide
  have endNm : endKey ≠ inksKey := by decide
  have norm : normKey ≠ inksKey := by decide
  simp only [spectralOf, same.keyword _ bands, same.keyword _ norm, same.number_eq bands,
    same.number_eq startNm, same.number_eq endNm, same.number_eq norm]

theorem ofColumns_eq [Scalar α] (inks : InkSet) (device : List ℕ) :
    ofColumns t' inks (device.map place) = ofColumns t inks device := by
  have instrument := same.keyword instrumentKey (by decide)
  simp only [ofColumns, same.encodingOf_eq, same.colorColumns_eq, same.spectralOf_eq,
    same.spectrumColumns_eq, same.size, instrument, map_bind_eq, same.sampleOf_eq]

end SameColors

end Places

/-! The description in other words. -/

section Respelling

variable {α : Type} {t : Table α} {device device' : String}

/-- A name with another description before its underscore. -/
def respell (device device' s : String) : String :=
  if beforeUnderscore s = some device then
    device' ++ String.ofList (s.toList.dropWhile (· != '_'))
  else s

theorem respell_append (plain : '_' ∉ device.toList) (device' rest : String) :
    respell device device' (device ++ "_" ++ rest) = device' ++ "_" ++ rest := by
  rw [respell, if_pos (beforeUnderscore_append plain rest), (split_underscore plain rest).2]
  apply String.toList_inj.mp
  simp

/-- Any other name stays, and no name becomes it. -/
theorem respell_eq_iff (plain' : '_' ∉ device'.toList) {s name p : String}
    (named : beforeUnderscore name = some p) (other : p ≠ device) (other' : p ≠ device') :
    respell device device' s = name ↔ s = name := by
  by_cases own : beforeUnderscore s = some device
  · obtain ⟨plain, rest, rfl⟩ := beforeUnderscore_eq_some_iff.mp own
    rw [respell_append plain]
    -- Neither the old nor the new spelling has the prefix of the name.
    constructor
    · rintro rfl
      rw [beforeUnderscore_append plain', Option.some.injEq] at named
      exact absurd named.symm other'
    · rintro rfl
      rw [own, Option.some.injEq] at named
      exact absurd named.symm other
  · rw [respell, if_neg own]

theorem mem_trim {c : Char} {cs : List Char} (mem : c ∈ cs) (dark : Text.isBlank c = false) :
    c ∈ Text.trim cs := by
  have kept {cs : List Char} (mem : c ∈ cs) : c ∈ cs.dropWhile Text.isBlank := by
    rw [← List.takeWhile_append_dropWhile (p := Text.isBlank) (l := cs)] at mem
    rcases List.mem_append.mp mem with blank | kept
    · have := List.mem_takeWhile_imp blank
      simp [dark] at this
    · exact kept
  rw [Text.trim, List.mem_reverse]
  exact kept (List.mem_reverse.mpr (kept mem))

theorem letter_of_mem {inks : InkSet} {c : Char} (mem : c ∈ device.toList)
    (read : (InkSet.ofLetters device : Except (ColorError α) InkSet) = .ok inks)
    (dark : Text.isBlank c = false) : c ∈ "CMYKORGBWcmyk".toList :=
  (InkSet.exists_ofLetters.mp ⟨inks, read⟩).2.1 c (mem_trim mem dark)

theorem plain_of_ofLetters {inks : InkSet}
    (read : (InkSet.ofLetters device : Except (ColorError α) InkSet) = .ok inks) :
    '_' ∉ device.toList := by
  intro mem
  simpa using letter_of_mem mem read (by decide)

/-- No device is described by what begins the name of a colour. -/
theorem ne_of_ofLetters {inks : InkSet} {p : String} (color : p ∈ colorPrefixes)
    (read : (InkSet.ofLetters device : Except (ColorError α) InkSet) = .ok inks) : p ≠ device := by
  rintro rfl
  rw [colorPrefixes, List.mem_cons, List.mem_cons, List.mem_singleton] at color
  obtain rfl | rfl | rfl := color
  · simpa using letter_of_mem (c := 'X') (by simp) read (by decide)
  · simpa using letter_of_mem (c := 'L') (by simp) read (by decide)
  · simpa using letter_of_mem (c := 'S') (by simp) read (by decide)

theorem ofLetters_of_perm {inks : InkSet}
    (read : (InkSet.ofLetters device : Except (ColorError α) InkSet) = .ok inks)
    (perm : (Text.trim device'.toList).Perm (Text.trim device.toList)) :
    (InkSet.ofLetters device' : Except (ColorError α) InkSet) = .ok inks := by
  obtain ⟨nonempty, letters, nodup⟩ := InkSet.exists_ofLetters.mp ⟨inks, read⟩
  obtain ⟨inks', read'⟩ : ∃ s, (InkSet.ofLetters device' : Except (ColorError α) InkSet) = .ok s :=
    InkSet.exists_ofLetters.mpr ⟨fun empty => nonempty (List.nil_perm.mp (empty ▸ perm)),
      fun c mem => letters c (perm.mem_iff.mp mem), perm.nodup_iff.mpr nodup⟩
  have same : inks' = inks := (InkSet.names_of_ofLetters read').eq
    (InkSet.names_of_ofLetters read) fun c => perm.mem_iff
  rw [read', same]

/-- A table with another description of its device, in the keyword and in the names of fields. -/
def respelled (t : Table α) (device device' : String) : Table α where
  kind := t.kind
  keywords := t.keywords.map fun (key, value) =>
    (key, if key = inksKey then respell device device' value else value)
  fields := t.fields.map fun f => { f with name := respell device device' f.name }
  rows := t.rows

theorem findKeyword?_respelled (name : String) :
    (respelled t device device').findKeyword? name = (t.findKeyword? name).map fun value =>
      if name = inksKey then respell device device' value else value := by
  simp only [Table.findKeyword?, respelled, List.find?_map, Function.comp_def, Option.map_map]
  cases found : t.keywords.find? fun (key, _) => key == name with
  | none => simp
  | some entry =>
      have named : entry.1 = name := by simpa using List.find?_some found
      simp [named]

theorem map_name_respelled : (respelled t device device').fields.toList.map Field.name =
    (t.fields.toList.map Field.name).map (respell device device') := by
  simp [respelled]

theorem findField?_respelled (wf : (respelled t device device').WellFormed)
    (plain : '_' ∉ device.toList) {ink : Ink} {col : ℕ}
    (found : t.findField? (deviceField device ink) = some col) :
    (respelled t device device').findField? (deviceField device' ink) = some col := by
  have here := Table.getElem?_of_findField? found
  apply Table.findField?_eq wf.fields
  rw [map_name_respelled, List.getElem?_map, here, Option.map_some]
  exact congrArg some (respell_append plain device' ink.letter.toString)

theorem findField?_respelled_color (plain' : '_' ∉ device'.toList) {name p : String}
    (named : beforeUnderscore name = some p) (other : p ≠ device) (other' : p ≠ device') :
    (respelled t device device').findField? name = t.findField? name := by
  rw [Table.findField?, respelled, Array.findIdx?_map, Table.findField?]
  refine congrArg (Array.findIdx? · t.fields) (funext fun f => ?_)
  rw [Bool.eq_iff_iff, Function.comp_apply, beq_iff_eq, beq_iff_eq]
  exact respell_eq_iff plain' named other other'

theorem respelled_sameColors {inks : InkSet}
    (read : (InkSet.ofLetters device : Except (ColorError α) InkSet) = .ok inks)
    (read' : (InkSet.ofLetters device' : Except (ColorError α) InkSet) = .ok inks) :
    SameColors (respelled t device device') t id where
  size := rfl
  keyword name other := by simp [findKeyword?_respelled, other]
  field name p color named := by
    rw [Option.map_id_fun, id_eq]
    exact findField?_respelled_color (plain_of_ofLetters read') named
      (ne_of_ofLetters color read) (ne_of_ofLetters color read')
  value _ _ := rfl

theorem ofTable_respelled [Scalar α] [Numeral α] {m : Measurements α} {space : String}
    (keyword : t.findKeyword? inksKey = some (device ++ "_" ++ space))
    (plain : '_' ∉ device.toList) (read : ofTable t = .ok m)
    (perm : (Text.trim device'.toList).Perm (Text.trim device.toList))
    (wf : (respelled t device device').WellFormed) :
    ofTable (respelled t device device') = .ok m := by
  simp only [ofTable_eq, bind_eq_ok_iff, mapError_eq_ok_iff] at read ⊢
  obtain ⟨device₀, described, inks, named, cols, deviceColumns, read⟩ := read
  obtain rfl : device = device₀ :=
    Except.ok.inj ((deviceOf_eq_ok_iff.mpr ⟨plain, space, keyword⟩).symm.trans described)
  have named' := ofLetters_of_perm named perm
  have plain' := plain_of_ofLetters named'
  have keyword' : (respelled t device device').findKeyword? inksKey =
      some (device' ++ "_" ++ space) := by
    rw [findKeyword?_respelled, keyword, Option.map_some, if_pos rfl, respell_append plain]
  -- The fields of the inks have other names, but they stand where they stood.
  have deviceColumns' : (inks.inks.map (deviceField device')).mapM
      (column (respelled t device device')) = .ok cols := by
    simp only [mapM_column_eq_ok_iff, List.forall₂_map_left_iff] at deviceColumns ⊢
    exact deviceColumns.imp fun ink col found => findField?_respelled wf plain found
  have same := (respelled_sameColors (t := t) named named').ofColumns_eq inks cols
  rw [List.map_id_fun, id_eq] at same
  exact ⟨device', deviceOf_eq_ok_iff.mpr ⟨plain', space, keyword'⟩, inks, named', cols,
    deviceColumns', same.trans read⟩

end Respelling

/-! Columns and keywords in another order. -/

section Order

variable {α : Type} {t t' : Table α} {σ : Equiv.Perm ℕ} (ordered : t'.Reorders σ t)
include ordered

theorem sameColors_of_reorders (wf : t.WellFormed) : SameColors t' t σ.symm where
  size := ordered.size_eq
  keyword name _ := ordered.arranges.findKeyword?_eq wf.keywords name
  field name _ _ _ := ordered.arranges.findField?_eq_map wf.fields name
  value row col := by rw [Table.real?, ordered.cell?_eq, Table.real?]

theorem ofTable_of_reorders [Scalar α] [Numeral α] (wf : t.WellFormed) :
    ofTable t' = ofTable t := by
  have described : deviceOf t' = deviceOf t := by
    rw [deviceOf, ordered.arranges.findKeyword?_eq wf.keywords, deviceOf]
  have columns (names : List String) : names.mapM (column t') =
      (names.mapM (column t)).map (List.map σ.symm) := by
    refine mapM_eq_map_mapM fun name _ => ?_
    rw [column, ordered.arranges.findField?_eq_map wf.fields, column]
    cases t.findField? name <;> rfl
  simp only [ofTable_eq, described, columns, map_bind_eq,
    (sameColors_of_reorders ordered wf).ofColumns_eq]

end Order

/-- Measurements are read by name. What an accepted file holds is what the named fields and
keywords say; it is the same when the description of the device names its inks in another order, in
the fields as well; and it is the same, like the error of any other file, for every order of the
fields, with their cells, and of the keywords. -/
theorem ofFile_by_name {α : Type} [Scalar α] [Numeral α] {t : Table α} (wf : t.WellFormed)
    (rest : File α) :
    (∀ m, ofFile (t :: rest) = .ok m → ∃ device space,
      t.findKeyword? inksKey = some (device ++ "_" ++ space) ∧ '_' ∉ device.toList ∧
        Reads t device m) ∧
    (∀ m device space device', ofFile (t :: rest) = .ok m →
      t.findKeyword? inksKey = some (device ++ "_" ++ space) → '_' ∉ device.toList →
      (Text.trim device'.toList).Perm (Text.trim device.toList) →
      (respelled t device device').WellFormed →
        ofFile (respelled t device device' :: rest) = .ok m) ∧
    ∀ t' σ, t'.Reorders σ t → ofFile (t' :: rest) = ofFile (t :: rest) := by
  refine ⟨fun m read => ?_, fun m device space device' read keyword plain perm wf' => ?_,
    fun t' σ ordered => ofTable_of_reorders ordered wf⟩
  · obtain ⟨device, described, reads⟩ := reads_of_ofTable read
    obtain ⟨plain, space, keyword⟩ := deviceOf_eq_ok_iff.mp described
    exact ⟨device, space, keyword, plain, reads⟩
  · exact ofTable_respelled keyword plain read perm wf'

/-- Two patches in Lab, on a device whose description names yellow before cyan. -/
noncomputable def yellowChart : Table ℝ where
  kind := "CTI3"
  keywords := [(inksKey, "YC_LAB"), (instrumentKey, "i1Pro")]
  fields := #[⟨"YC_Y", .real⟩, ⟨"YC_C", .real⟩, ⟨"LAB_L", .real⟩, ⟨"LAB_A", .real⟩,
    ⟨"LAB_B", .real⟩]
  rows := #[#[.real 0, .real 0, .real 1, .real 0, .real 0],
    #[.real 0, .real 1, .real 1, .real (-1), .real 0]]

def yellowCyan : InkSet := ⟨5, false, by decide, by decide⟩

attribute [local instance] Numeral.whole

theorem yellowChart_wellFormed : yellowChart.WellFormed :=
  ⟨by decide, by decide, by simp [yellowChart, Cell.type]⟩

theorem yellowChart_respelled_wellFormed : (respelled yellowChart "YC" "CY").WellFormed := by
  refine ⟨by decide, ?_, by simp [yellowChart, respelled, Cell.type]⟩
  rw [map_name_respelled]
  decide

theorem yellowChart_read :
    ∃ m, ofFile [yellowChart] = .ok m ∧ m.samples.map Sample.dev = [#[0, 0], #[1 / 100, 0]] := by
  have described : deviceOf yellowChart = .ok "YC" := rfl
  have named : (InkSet.ofLetters "YC" : Except (ColorError ℝ) InkSet) = .ok yellowCyan := rfl
  have device : (yellowCyan.inks.map (deviceField "YC")).mapM (column yellowChart) =
      .ok [1, 0] := by cbv
  have encoded : encodingOf yellowChart = .ok .lab := by cbv
  have color : ColorEncoding.lab.fields.mapM (column yellowChart) = .ok [2, 3, 4] := by cbv
  have spectral : spectralOf yellowChart = .ok none := rfl
  obtain ⟨samples, sampled, dev⟩ : ∃ samples,
      (List.range yellowChart.size).mapM
        (sampleOf yellowChart ⟨[1, 0], [2, 3, 4], .lab, [], none⟩) = .ok samples ∧
      samples.map Sample.dev = [#[0 / percent, 0 / percent], #[1 / percent, 0 / percent]] :=
    ⟨_, rfl, rfl⟩
  refine ⟨⟨yellowCyan, samples, none, yellowChart.findKeyword? instrumentKey⟩, ?_, ?_⟩
  · simp only [ofFile, ofTable_eq, bind_eq_ok_iff, mapError_eq_ok_iff]
    refine ⟨"YC", described, yellowCyan, named, [1, 0], device, ?_⟩
    simp only [ofColumns, bind_eq_ok_iff]
    exact ⟨.lab, encoded, _, color, none, spectral, [], rfl, samples, sampled, rfl⟩
  · rw [dev]
    norm_num [percent]

theorem ofFile_by_name_yellowChart :
    ∃ m, ofFile [yellowChart] = .ok m ∧ Reads yellowChart "YC" m ∧
      m.samples.map Sample.dev = [#[0, 0], #[1 / 100, 0]] ∧
      ofFile [respelled yellowChart "YC" "CY"] = .ok m ∧ ofFile [yellowChart.mirrored] = .ok m := by
  obtain ⟨m, read, dev⟩ := yellowChart_read
  obtain ⟨accepted, words, orders⟩ := ofFile_by_name yellowChart_wellFormed []
  have keyword : yellowChart.findKeyword? inksKey = some ("YC" ++ "_" ++ "LAB") := by decide
  have plain : '_' ∉ "YC".toList := by decide
  obtain ⟨device, space, keyword', plain', reads⟩ := accepted m read
  have same : device = "YC" := by
    rw [keyword, Option.some.injEq] at keyword'
    have described := beforeUnderscore_append plain' space
    rw [← keyword', beforeUnderscore_append plain, Option.some.injEq] at described
    exact described.symm
  have perm : (Text.trim "CY".toList).Perm (Text.trim "YC".toList) := by decide
  refine ⟨m, read, same ▸ reads, dev, ?_, ?_⟩
  · exact words m "YC" "LAB" "CY" read keyword plain perm yellowChart_respelled_wellFormed
  · exact (orders _ _ (Table.mirrored_reorders yellowChart_wellFormed)).trans read

end Measurements

end InkModel
