import InkModel.Measurement
import InkModel.Proofs.Profile.Arrangement

/-! # Measurements by name

A column of a measurement file is found by its name: the description of the device before the letter
of an ink, the coordinate of a colour, the wavelength of a band. A file that is read has one sample
for each data set, with the value of every field where the name of the field says.
-/

namespace InkModel

open Cgats

namespace Cgats.Table

variable {α : Type} {t : Table α}

/-- The number of a data set under a name. -/
def under? (t : Table α) (row : ℕ) (name : String) : Option α :=
  (t.findField? name).bind (t.real? row)

theorem under?_of_columns {row : ℕ} {names : List String} {cols : List ℕ} {values : List α}
    (columns : List.Forall₂ (fun name col => t.findField? name = some col) names cols)
    (numbers : List.Forall₂ (fun col x => t.real? row col = some x) cols values) :
    List.Forall₂ (fun name x => t.under? row name = some x) names values := by
  induction columns generalizing values with
  | nil =>
      cases numbers
      exact .nil
  | cons column _ ih =>
      cases numbers with
      | cons number numbers =>
          refine .cons ?_ (ih numbers)
          rw [under?, column, Option.bind_some, number]

theorem forall₂_of_findFieldsFrom {name : ℕ → String} {found : Array ℕ} {count : ℕ}
    {cols : List ℕ} (run : t.findFieldsFrom name found count = .ok cols) :
    ∃ more, cols = found.toList ++ more ∧
      List.Forall₂ (fun i col => t.findField? (name i) = some col)
        (List.range' found.size count) more := by
  induction count generalizing found with
  | zero =>
      cases run
      exact ⟨[], by simp, .nil⟩
  | succ count ih =>
      rw [findFieldsFrom] at run
      split at run
      · cases run
      · rename_i col here
        obtain ⟨more, same, later⟩ := ih run
        refine ⟨col :: more, by simpa using same, ?_⟩
        rw [List.range'_succ]
        exact .cons here (by simpa using later)

end Cgats.Table

namespace Measurements

open ModelFile (bandsKey startKey endKey normKey inksKey instrumentKey spectralField)

/-! What a table says by its names. -/

section Names

variable {α : Type}

/-- The field of an ink: its letter behind the description of the device, as that is spelled. -/
def deviceField (device : String) (ink : Ink) : String := device ++ "_" ++ ink.letter.toString

variable [Numeral α]

/-- The number that a keyword holds. -/
def keywordNumber? (t : Table α) (name : String) : Option α :=
  (t.findKeyword? name).bind fun value => Numeral.read? (Text.trimmed value)

variable [Scalar α]

/-- The band layout is the one of the keywords. -/
structure ReadsLayout (t : Table α) (shape : SpectralShape α) : Prop where
  bands : ∃ x, keywordNumber? t bandsKey = some x ∧ shape.bands = (Scalar.trunc x).toNat
  startNm : keywordNumber? t startKey = some shape.startNm
  endNm : keywordNumber? t endKey = some shape.endNm
  norm : keywordNumber? t normKey = some shape.norm ∨
    t.findKeyword? normKey = none ∧ shape.norm = 100

/-- The sample is the one of a data set: it has every value from the field of its name. -/
structure ReadsSample (t : Table α) (device : String) (inks : InkSet)
    (spectral : Option (SpectralShape α)) (row : ℕ) (s : Sample α) : Prop where
  channels : s.dev.size = inks.count
  dev : ∀ k ink, inks.inkAt? k = some ink →
    ∃ x, t.under? row (deviceField device ink) = some x ∧ s.dev[k]? = some (x / 100)
  xyz : (t.findField? "XYZ_X").isSome = true →
    ∃ x y z, t.under? row "XYZ_X" = some x ∧ t.under? row "XYZ_Y" = some y ∧
      t.under? row "XYZ_Z" = some z ∧ s.xyz = ⟨x / 100, y / 100, z / 100⟩
  lab : t.findField? "XYZ_X" = none →
    ∃ l a b, t.under? row "LAB_L" = some l ∧ t.under? row "LAB_A" = some a ∧
      t.under? row "LAB_B" = some b ∧ s.xyz = Lab.toXyz ⟨l, a, b⟩
  plain : spectral = none → s.spectrum = none
  spectrum : ∀ shape, spectral = some shape →
    ∃ values : Array α, s.spectrum = some values ∧ values.size = shape.bands ∧
      ∀ i < shape.bands, ∃ x, t.under? row (spectralField shape i) = some x ∧
        values[i]? = some (x / shape.norm)
  weight : s.weight = 1

/-- The measurements are the ones of a table, with one sample for each data set in their order. -/
structure Reads (t : Table α) (device : String) (m : Measurements α) : Prop where
  inks : (InkSet.ofLetters device : Except (ColorError α) InkSet) = .ok m.inks
  count : m.samples.length = t.size
  sample : ∀ row s, m.samples[row]? = some s → ReadsSample t device m.inks m.spectral row s
  plain : m.spectral = none ↔ t.findKeyword? bandsKey = none
  layout : ∀ shape, m.spectral = some shape → ReadsLayout t shape
  instrument : m.instrument = t.findKeyword? instrumentKey

end Names

/-! Prefixes. -/

theorem split_underscore {device : String} (plain : '_' ∉ device.toList) (rest : String) :
    (device ++ "_" ++ rest).toList.takeWhile (· != '_') = device.toList ∧
      (device ++ "_" ++ rest).toList.dropWhile (· != '_') = '_' :: rest.toList := by
  have inside : ∀ c ∈ device.toList, (c != '_') = true := by
    intro c mem
    simpa using ne_of_mem_of_not_mem mem plain
  simpa using takeWhile_append_stop inside (by simp)

theorem beforeUnderscore_append {device : String} (plain : '_' ∉ device.toList) (rest : String) :
    beforeUnderscore (device ++ "_" ++ rest) = some device := by
  rw [beforeUnderscore, if_pos (by simp), (split_underscore plain rest).1, String.ofList_toList]

theorem beforeUnderscore_eq_some_iff {s device : String} :
    beforeUnderscore s = some device ↔
      '_' ∉ device.toList ∧ ∃ rest, s = device ++ "_" ++ rest := by
  constructor
  · intro found
    by_cases underscore : '_' ∈ s.toList
    · obtain ⟨before, rest, whole, plain⟩ := List.eq_append_cons_of_mem underscore
      have spelled : s = String.ofList before ++ "_" ++ String.ofList rest :=
        String.toList_inj.mp (by simp [whole])
      have plain : '_' ∉ (String.ofList before).toList := by simpa using plain
      rw [spelled, beforeUnderscore_append plain, Option.some.injEq] at found
      subst found
      exact ⟨plain, _, spelled⟩
    · simp [beforeUnderscore, underscore] at found
  · rintro ⟨plain, rest, rfl⟩
    exact beforeUnderscore_append plain rest

/-! A reading that succeeds. -/

section Reading

variable {α : Type} {t : Table α}

theorem column_eq_ok_iff {name : String} {col : ℕ} :
    column t name = .ok col ↔ t.findField? name = some col := by
  rw [column]
  cases t.findField? name <;> simp

theorem numbers_eq_ok_iff {row : ℕ} {cols : List ℕ} {values : List α} :
    numbers t row cols = .ok values ↔
      List.Forall₂ (fun col x => t.real? row col = some x) cols values := by
  rw [numbers, mapM_eq_ok_iff]
  refine iff_of_eq (congrArg (List.Forall₂ · cols values) (funext₂ fun col x => ?_))
  cases t.real? row col <;> simp

theorem mapM_column_eq_ok_iff {names : List String} {cols : List ℕ} :
    names.mapM (column t) = .ok cols ↔
      List.Forall₂ (fun name col => t.findField? name = some col) names cols := by
  simp only [mapM_eq_ok_iff, column_eq_ok_iff]

/-- The description of the device. -/
def deviceOf (t : Table α) : Except (MeasurementError α) String :=
  match t.findKeyword? inksKey with
  | none => .error (.missingKeyword inksKey)
  | some rep =>
    match beforeUnderscore rep with
    | none => .error (.badColorants rep)
    | some device => .ok device

theorem deviceOf_eq_ok_iff {device : String} :
    deviceOf t = .ok device ↔
      '_' ∉ device.toList ∧ ∃ space, t.findKeyword? inksKey = some (device ++ "_" ++ space) := by
  unfold deviceOf
  cases t.findKeyword? inksKey with
  | none => simp
  | some rep =>
      simp only [Option.some.injEq, ← beforeUnderscore_eq_some_iff]
      cases beforeUnderscore rep <;> simp

theorem number_eq_ok_iff [Numeral α] {name : String} {x : α} :
    number t name = .ok x ↔ keywordNumber? t name = some x := by
  rw [number, keywordNumber?]
  cases t.findKeyword? name with
  | none => simp
  | some value => cases read : (Numeral.read? (Text.trimmed value) : Option α) <;> simp [read]

theorem encodingOf_eq_ok {encoding : ColorEncoding} (found : encodingOf t = .ok encoding) :
    encoding = if (t.findField? "XYZ_X").isSome then .xyz else .lab := by
  unfold encodingOf at found
  split at found
  · cases found
    simp [*]
  · split at found
    · cases found
      simp [*]
    · cases found

variable [Scalar α]

theorem made_layout {bands : ℕ} {startNm endNm norm : α} {spectral : Option (SpectralShape α)}
    (made : ((SpectralShape.make bands startNm endNm norm).map some).mapError
      MeasurementError.color = .ok spectral) : spectral = some ⟨bands, startNm, endNm, norm⟩ := by
  unfold SpectralShape.make at made
  split_ifs at made <;> cases made
  rfl

theorem sampleOf_eq_ok {cols : Columns α} {row : ℕ} {s : Sample α}
    (read : sampleOf t cols row = .ok s) :
    ∃ dev color, numbers t row cols.device = .ok dev ∧ numbers t row cols.color = .ok color ∧
      s.dev = (dev.map (· / 100)).toArray ∧ s.xyz = colorOf cols.encoding color ∧ s.weight = 1 ∧
      (cols.shape = none → s.spectrum = none) ∧
      ∀ shape, cols.shape = some shape → ∃ values, numbers t row cols.spectrum = .ok values ∧
        s.spectrum = some (values.map (· / shape.norm)).toArray := by
  unfold sampleOf at read
  simp only [bind_eq_ok_iff] at read
  obtain ⟨dev, hdev, color, hcolor, read⟩ := read
  refine ⟨dev, color, hdev, hcolor, ?_⟩
  cases shaped : cols.shape with
  | none =>
      rw [shaped] at read
      cases read
      exact ⟨rfl, rfl, rfl, fun _ => rfl, by simp⟩
  | some shape =>
      simp only [shaped, bind_eq_ok_iff] at read
      obtain ⟨values, hvalues, _, taken, same⟩ := read
      cases taken
      cases same
      refine ⟨rfl, rfl, rfl, by simp, ?_⟩
      rintro _ ⟨⟩
      exact ⟨values, hvalues, rfl⟩

/-- The columns of a spectrum. -/
def spectrumColumns (t : Table α) : Option (SpectralShape α) → Except (MeasurementError α) (List ℕ)
  | some s => (t.findFieldsFrom (spectralField s) #[] s.bands).mapError .missingField
  | none => pure []

theorem spectrumColumns_eq_ok {shape : SpectralShape α} {cols : List ℕ}
    (found : spectrumColumns t (some shape) = .ok cols) :
    List.Forall₂ (fun name col => t.findField? name = some col)
      ((List.range shape.bands).map (spectralField shape)) cols := by
  rw [spectrumColumns, mapError_eq_ok_iff] at found
  obtain ⟨more, rfl, all⟩ := Table.forall₂_of_findFieldsFrom found
  rw [List.forall₂_map_left_iff, List.range_eq_range']
  simpa using all

theorem readsSample {device : String} {inks : InkSet} {cols : Columns α} {row : ℕ} {s : Sample α}
    (deviceColumns : (inks.inks.map (deviceField device)).mapM (column t) = .ok cols.device)
    (encoded : encodingOf t = .ok cols.encoding)
    (colorColumns : cols.encoding.fields.mapM (column t) = .ok cols.color)
    (bandColumns : spectrumColumns t cols.shape = .ok cols.spectrum)
    (read : sampleOf t cols row = .ok s) : ReadsSample t device inks cols.shape row s := by
  obtain ⟨dev, color, hdev, hcolor, sameDev, sameColor, weight, plain, spectrum⟩ :=
    sampleOf_eq_ok read
  have deviceValues := Table.under?_of_columns (mapM_column_eq_ok_iff.mp deviceColumns)
    (numbers_eq_ok_iff.mp hdev)
  have colorValues := Table.under?_of_columns (mapM_column_eq_ok_iff.mp colorColumns)
    (numbers_eq_ok_iff.mp hcolor)
  have encoding := encodingOf_eq_ok encoded
  refine ⟨?channels, ?dev, ?xyz, ?lab, plain, ?spectrum, weight⟩
  case channels =>
    have := deviceValues.length_eq
    simpa [sameDev, InkSet.count] using this.symm
  case dev =>
    intro k ink here
    rw [List.forall₂_map_left_iff] at deviceValues
    obtain ⟨x, found, value⟩ := exists_getElem?_of_forall₂ deviceValues here
    exact ⟨x, value, by simp [sameDev, found]⟩
  case xyz =>
    intro present
    rw [if_pos present] at encoding
    rw [encoding] at colorValues sameColor
    obtain ⟨x, y, z, hx, hy, hz, rfl⟩ := forall₂_three colorValues
    exact ⟨x, y, z, hx, hy, hz, sameColor⟩
  case lab =>
    intro absent
    rw [if_neg (by simp [absent])] at encoding
    rw [encoding] at colorValues sameColor
    obtain ⟨l, a, b, hl, ha, hb, rfl⟩ := forall₂_three colorValues
    exact ⟨l, a, b, hl, ha, hb, sameColor⟩
  case spectrum =>
    intro shape shaped
    obtain ⟨values, hvalues, same⟩ := spectrum shape shaped
    rw [shaped] at bandColumns
    have bandValues := Table.under?_of_columns (spectrumColumns_eq_ok bandColumns)
      (numbers_eq_ok_iff.mp hvalues)
    refine ⟨_, same, ?_, fun i inside => ?_⟩
    · simpa using bandValues.length_eq.symm
    · rw [List.forall₂_map_left_iff] at bandValues
      obtain ⟨x, found, value⟩ := exists_getElem?_of_forall₂ bandValues (List.getElem?_range inside)
      exact ⟨x, value, by simp [found]⟩

variable [Numeral α]

theorem spectralOf_eq_ok {spectral : Option (SpectralShape α)}
    (read : spectralOf t = .ok spectral) :
    (spectral = none ↔ t.findKeyword? bandsKey = none) ∧
      ∀ shape, spectral = some shape → ReadsLayout t shape := by
  unfold spectralOf at read
  split at read
  · rename_i absent
    cases read
    simp [absent]
  · rename_i present
    simp only [bind_eq_ok_iff, number_eq_ok_iff] at read
    obtain ⟨bands, hbands, startNm, hstart, endNm, hend, read⟩ := read
    split at read
    · simp only [bind_eq_ok_iff, number_eq_ok_iff] at read
      obtain ⟨norm, hnorm, made⟩ := read
      obtain rfl := made_layout made
      refine ⟨by simp [present], ?_⟩
      rintro _ ⟨⟩
      exact ⟨⟨bands, hbands, rfl⟩, hstart, hend, .inl hnorm⟩
    · rename_i absent
      obtain rfl := made_layout read
      refine ⟨by simp [present], ?_⟩
      rintro _ ⟨⟩
      exact ⟨⟨bands, hbands, rfl⟩, hstart, hend, .inr ⟨by simpa using absent, rfl⟩⟩

/-- The measurements of a table whose device columns are known. -/
def ofColumns (t : Table α) (inks : InkSet) (device : List ℕ) :
    Except (MeasurementError α) (Measurements α) := do
  let encoding ← encodingOf t
  let color ← encoding.fields.mapM (column t)
  let shape ← spectralOf t
  let spectrum ← spectrumColumns t shape
  let samples ← (List.range t.size).mapM (sampleOf t ⟨device, color, encoding, spectrum, shape⟩)
  return { inks, samples, spectral := shape, instrument := t.findKeyword? instrumentKey }

theorem ofTable_eq (t : Table α) :
    ofTable t = deviceOf t >>= fun device => (InkSet.ofLetters device).mapError .color >>=
      fun inks => (inks.inks.map (deviceField device)).mapM (column t) >>= ofColumns t inks := by
  unfold ofTable deviceOf
  cases t.findKeyword? inksKey with
  | none => rfl
  | some rep =>
      simp only [pure_bind]
      cases beforeUnderscore rep with
      | none => rfl
      | some device =>
          simp only [List.mapM_map]
          refine bind_congr fun inks => bind_congr fun cols => bind_congr fun encoding =>
            bind_congr fun color => bind_congr fun shape => ?_
          cases shape <;> rfl

theorem ofColumns_eq_ok {inks : InkSet} {device : List ℕ} {m : Measurements α}
    (read : ofColumns t inks device = .ok m) :
    ∃ encoding color spectrum, encodingOf t = .ok encoding ∧
      encoding.fields.mapM (column t) = .ok color ∧ spectralOf t = .ok m.spectral ∧
      spectrumColumns t m.spectral = .ok spectrum ∧
      (List.range t.size).mapM (sampleOf t ⟨device, color, encoding, spectrum, m.spectral⟩) =
        .ok m.samples ∧
      m.inks = inks ∧ m.instrument = t.findKeyword? instrumentKey := by
  simp only [ofColumns, bind_eq_ok_iff] at read
  obtain ⟨encoding, encoded, color, colored, shape, shaped, spectrum, spectral, samples, sampled,
    same⟩ := read
  cases same
  exact ⟨encoding, color, spectrum, encoded, colored, shaped, spectral, sampled, rfl, rfl⟩

theorem reads_of_ofTable {m : Measurements α} (read : ofTable t = .ok m) :
    ∃ device, deviceOf t = .ok device ∧ Reads t device m := by
  simp only [ofTable_eq, bind_eq_ok_iff, mapError_eq_ok_iff] at read
  obtain ⟨device, described, inks, named, cols, deviceColumns, read⟩ := read
  obtain ⟨encoding, color, spectrum, encoded, colored, shaped, banded, sampled, rfl, instrument⟩ :=
    ofColumns_eq_ok read
  obtain ⟨plain, layout⟩ := spectralOf_eq_ok shaped
  rw [mapM_eq_ok_iff] at sampled
  refine ⟨device, described, named, ?_, fun row s here => ?_, plain, layout, instrument⟩
  · simpa using sampled.length_eq.symm
  · obtain ⟨_, here', sample⟩ := exists_getElem?_of_forall₂ sampled.flip here
    obtain ⟨_, rfl⟩ := List.getElem?_eq_some_iff.mp here'
    rw [List.getElem_range] at sample
    exact readsSample deviceColumns encoded colored banded sample

end Reading

end Measurements

end InkModel
