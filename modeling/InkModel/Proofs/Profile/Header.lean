import InkModel.Profile.File
import InkModel.Proofs.Cgats.Table
import InkModel.Proofs.Cgats.Writer
import InkModel.Proofs.Color.InkSet
import InkModel.Proofs.Exact
import InkModel.Proofs.Profile.Rows

/-! # The keywords of a model file

Keywords hold what the parameters of the bands do not say. What equals the usual
setting has no keyword, and what has none is read as the usual setting.
-/

namespace InkModel.ModelFile

open Cgats

section Entries

variable {α : Type}

theorem addChanged_eq {β : Type} (t : Table α) (key : String) (changed : β → Bool)
    (text : β → String) (value : β) : addChanged t key (changed value) (text value) =
      t.addKeyword? key ((Option.guard changed value).map text) := by
  rw [addChanged, Option.guard]
  cases changed value <;> rfl

variable [Scalar α]

/-- The numbers that keywords hold, where they are given. -/
def headerValues (m : Model α) : List (Option α) :=
  let u := m.tuning
  let d : Tuning α := .default
  [m.limit.map (· * 100),
   Option.guard (fun x => !Scalar.eqv x d.neutralWeight) u.neutralWeight,
   Option.guard (fun x => !Scalar.eqv x d.rangeWeight) u.rangeWeight,
   Option.guard (fun x => !Scalar.eqv x d.blackFail) u.blackFail,
   m.parts.spectral.map (·.startNm),
   m.parts.spectral.map (·.endNm),
   m.parts.spectral.map (·.norm)]

/-- The numbers of a model file. -/
def numbers (enc : ColorEncoding) (m : Model α) : List α :=
  (headerValues m).reduceOption ++
    (parameterRows enc m.parts).flatMap fun row => row.toList.filterMap Cell.asReal?

theorem mem_numbers_of_header {m : Model α} (enc : ColorEncoding) (i : ℕ) {value : Option α}
    (entry : (headerValues m)[i]? = some value) (x : α) (given : value = some x) :
    x ∈ numbers enc m := by
  subst given
  exact List.mem_append_left _ (List.reduceOption_mem_iff.mpr (List.mem_of_getElem? entry))

theorem mem_numbers_of_row {m : Model α} {enc : ColorEncoding} {row : Array (Cell α)}
    (mem : row ∈ parameterRows enc m.parts) {x : α} (real : .real x ∈ row) :
    x ∈ numbers enc m := by
  refine List.mem_append_right _ (List.mem_flatMap.mpr ⟨row, mem, ?_⟩)
  exact List.mem_filterMap.mpr ⟨_, Array.mem_toList_iff.mpr real, rfl⟩

variable [Numeral α]

/-- The keywords of a model, with the values of those that are given. -/
def headerEntries (m : Model α) : List (String × Option String) :=
  let p := m.parts
  let u := m.tuning
  let d : Tuning α := .default
  [("DESCRIPTOR", some "Model Printer Profile"),
   ("ORIGINATOR", some "mpp-rs 0.1.0"),
   (createdKey, p.created),
   (classKey, some m.deviceClass.name),
   (inksKey, some p.inks.letters),
   (instrumentKey, p.instrument),
   (limitKey, (m.limit.map (· * 100)).map Numeral.text),
   (orderKey, some p.order.repr),
   (shapedKey, some (if p.shaped then yesText else noText)),
   (restartsKey, (Option.guard (fun n => n ≠ d.blackRestarts) u.blackRestarts).map Nat.repr),
   (seedKey, (Option.guard (fun n => n ≠ d.blackSeed) u.blackSeed).map Nat.repr),
   (neutralKey, (Option.guard (fun x => !Scalar.eqv x d.neutralWeight) u.neutralWeight).map
     Numeral.text),
   (rangeKey, (Option.guard (fun x => !Scalar.eqv x d.rangeWeight) u.rangeWeight).map
     Numeral.text),
   (failKey, (Option.guard (fun x => !Scalar.eqv x d.blackFail) u.blackFail).map Numeral.text),
   (bandsKey, (p.spectral.map (·.bands)).map Nat.repr),
   (startKey, (p.spectral.map (·.startNm)).map Numeral.text),
   (endKey, (p.spectral.map (·.endNm)).map Numeral.text),
   (normKey, (p.spectral.map (·.norm)).map Numeral.text)]

/-- All keywords of model files. -/
def headerKeys : List String :=
  ["DESCRIPTOR", "ORIGINATOR", createdKey, classKey, inksKey, instrumentKey, limitKey, orderKey,
   shapedKey, restartsKey, seedKey, neutralKey, rangeKey, failKey, bandsKey, startKey, endKey,
   normKey]

theorem map_fst_headerEntries (m : Model α) : (headerEntries m).map Prod.fst = headerKeys := rfl

theorem headerKeys_nodup : headerKeys.Nodup := by decide

theorem headerKeys_writable : ∀ key ∈ headerKeys, IsWord key ∧ key ∉ reservedWords := by decide

theorem header_eq (m : Model α) :
    header m = Table.addAll { kind := modelKind } (headerEntries m) := by
  unfold header addBlackSettings addSpectral
  dsimp only
  rw [addChanged_eq _ _ (fun n => decide (n ≠ Tuning.blackRestarts (.default : Tuning α))) Nat.repr,
    addChanged_eq _ _ (fun n => decide (n ≠ Tuning.blackSeed (.default : Tuning α))) Nat.repr,
    addChanged_eq _ _ (fun x => !Scalar.eqv x Tuning.default.neutralWeight) Numeral.text,
    addChanged_eq _ _ (fun x => !Scalar.eqv x Tuning.default.rangeWeight) Numeral.text,
    addChanged_eq _ _ (fun x => !Scalar.eqv x Tuning.default.blackFail) Numeral.text, headerEntries]
  cases m.limit <;> cases m.parts.spectral <;> rfl

theorem header_fields (m : Model α) : (header m).fields = #[] := by
  rw [header_eq]
  exact (Table.addAll_fields _ _).1

theorem header_rows (m : Model α) : (header m).rows = #[] := by
  rw [header_eq]
  exact (Table.addAll_fields _ _).2.1

theorem header_kind (m : Model α) : (header m).kind = modelKind := by
  rw [header_eq]
  exact (Table.addAll_fields _ _).2.2

theorem header_wellFormed (m : Model α) : (header m).WellFormed := by
  rw [header_eq]
  exact (Table.wellFormed_new modelKind).addAll _

theorem mem_keywords_header {m : Model α} {k : String × String} (mem : k ∈ (header m).keywords) :
    (k.1, some k.2) ∈ headerEntries m := by
  rw [header_eq] at mem
  rcases Table.mem_keywords_addAll mem with old | set
  · cases old
  · exact set

/-- Every keyword has the value of its entry. -/
theorem findKeyword?_header {m : Model α} {t : Table α}
    (keywords : t.keywords = (header m).keywords) (i : ℕ) {key : String} {value : Option String}
    (entry : (headerEntries m)[i]? = some (key, value)) : t.findKeyword? key = value := by
  have same : t.findKeyword? key = (header m).findKeyword? key := by
    rw [Table.findKeyword?, keywords]
    rfl
  rw [same, header_eq]
  refine Table.findKeyword?_addAll ?_ (fun _ _ => rfl) (List.mem_of_getElem? entry)
  rw [map_fst_headerEntries]
  exact headerKeys_nodup

end Entries

section Reading

variable {α : Type} {t : Table α} {name : String}

theorem trimmed_word {s : String} (h : IsWord s) : Text.trimmed s = s :=
  trimmed_eq_self fun c mem => (isWordChar_iff.mp (h.chars c mem)).1

variable {β : Type} {read? : String → Option β} {text : β → String}

theorem readKeyword_eq_ok {v : β} (found : t.findKeyword? name = some (text v))
    (word : IsWord (text v)) (reads : read? (text v) = some v) :
    readKeyword read? t name = .ok v := by
  rw [readKeyword, keyword, found]
  simp only [bind, Except.bind, trimmed_word word, reads]

theorem readKeyword?_eq_ok {value : Option β} (found : t.findKeyword? name = value.map text)
    (word : ∀ v, value = some v → IsWord (text v))
    (reads : ∀ v, value = some v → read? (text v) = some v) :
    readKeyword? read? t name = .ok value := by
  rw [readKeyword?, found]
  cases value with
  | none => rfl
  | some v =>
      rw [Option.map_some]
      dsimp only
      rw [readKeyword_eq_ok found (word v rfl) (reads v rfl)]
      rfl

theorem readCount_eq_ok {n : ℕ} (found : t.findKeyword? name = some n.repr)
    (bound : n < Decimal.countBound) : readKeyword Decimal.readCount t name = .ok n :=
  readKeyword_eq_ok found (Decimal.isWord_repr n) (Decimal.readCount_repr bound)

theorem readCount?_eq_ok {value : Option ℕ} (found : t.findKeyword? name = value.map Nat.repr)
    (bound : ∀ n, value = some n → n < Decimal.countBound) :
    readKeyword? Decimal.readCount t name = .ok value :=
  readKeyword?_eq_ok found (fun n _ => Decimal.isWord_repr n)
    fun n h => Decimal.readCount_repr (bound n h)

variable [Numeral α] {number : α → Prop} (faithful : Numeral.Faithful α number)
include faithful

theorem readNumber_eq_ok {x : α} (found : t.findKeyword? name = some (Numeral.text x))
    (h : number x) : readKeyword Numeral.read? t name = .ok x :=
  readKeyword_eq_ok found (isWord_text faithful h) (faithful.reads x h)

theorem readNumber?_eq_ok {value : Option α}
    (found : t.findKeyword? name = value.map Numeral.text)
    (h : ∀ x, value = some x → number x) : readKeyword? Numeral.read? t name = .ok value :=
  readKeyword?_eq_ok found (fun x hx => isWord_text faithful (h x hx))
    fun x hx => faithful.reads x (h x hx)

theorem isQuotable_number {value : Option α} (h : ∀ x, value = some x → number x) :
    ∀ v, value.map Numeral.text = some v → IsQuotable v := by
  intro v given
  obtain ⟨x, hx, rfl⟩ := Option.map_eq_some_iff.mp given
  exact (isWord_text faithful (h x hx)).isQuotable

end Reading

theorem isQuotable_count (value : Option ℕ) : ∀ v, value.map Nat.repr = some v → IsQuotable v := by
  intro v given
  obtain ⟨n, _, rfl⟩ := Option.map_eq_some_iff.mp given
  exact (Decimal.isWord_repr n).isQuotable

theorem isQuotable_letters (s : InkSet) : IsQuotable s.letters := by
  have letter (ink : Ink) : ink.letter ≠ quoteChar ∧ ink.letter ≠ '\n' := by
    cases ink <;> decide
  constructor
  · intro mem
    rw [InkSet.toList_letters] at mem
    obtain ⟨ink, _, same⟩ := List.mem_map.mp mem
    exact (letter ink).1 same
  · intro mem
    rw [InkSet.toList_letters] at mem
    obtain ⟨ink, _, same⟩ := List.mem_map.mp mem
    exact (letter ink).2 same

end InkModel.ModelFile

namespace InkModel

/-- Whether a band layout can be stored: it is a layout, and neighbouring bands
have different whole wavelengths. -/
structure SpectralShape.Storable (s : SpectralShape ℝ) : Prop where
  made : make s.bands s.startNm s.endNm s.norm = .ok s
  low : 0 ≤ s.startNm
  high : s.endNm ≤ 100000
  step : 1 ≤ s.step

/-- What the parameters of a model need so that a file can hold them. -/
structure Parts.Storable (p : Parts ℝ) : Prop where
  inks : ∃ letters, (InkSet.ofLetters letters : Except (ColorError ℝ) InkSet) = .ok p.inks
  spectral : ∀ s, p.spectral = some s → s.Storable
  instrument : ∀ s, p.instrument = some s → Cgats.IsQuotable s
  created : ∀ s, p.created = some s → Cgats.IsQuotable s

/-- Whether the texts of parameters fit between quotes. -/
structure Parts.Quotable (p : Parts ℝ) : Prop where
  instrument : ∀ s, p.instrument = some s → Cgats.IsQuotable s
  created : ∀ s, p.created = some s → Cgats.IsQuotable s

/-- Whether the spectral bands of parameters, if there are any, are laid out as files accept it. -/
def Parts.LaidOut (p : Parts ℝ) : Prop :=
  ∀ s, p.spectral = some s → SpectralShape.make s.bands s.startNm s.endNm s.norm = .ok s

theorem Parts.Storable.quotable {p : Parts ℝ} (h : p.Storable) : p.Quotable :=
  ⟨h.instrument, h.created⟩

theorem Parts.Storable.laidOut {p : Parts ℝ} (h : p.Storable) : p.LaidOut :=
  fun s given => (h.spectral s given).made

/-- The counts of the black point search are counts of files. -/
structure Tuning.Storable (t : Tuning ℝ) : Prop where
  restarts : t.blackRestarts < Decimal.countBound
  seed : t.blackSeed < Decimal.countBound

namespace ModelFile

open Cgats

theorem getD_guard_eqv (x d : ℝ) : (Option.guard (fun x => !Scalar.eqv x d) x).getD d = x := by
  rw [Option.guard, Scalar.real_eqv]
  by_cases same : x = d <;> simp [same]

theorem getD_guard_ne (n d : ℕ) : (Option.guard (fun n => n ≠ d) n).getD d = n := by
  rw [Option.guard]
  by_cases same : n = d <;> simp [same]

section Header

variable [Numeral ℝ] {m : Model ℝ} {t : Table ℝ} (keywords : t.keywords = (header m).keywords)
include keywords

/-- The colorants are read as the set that their letters name, which must belong to the class of
the device. -/
theorem readInks_header :
    readInks t = if m.parts.inks.named = m.parts.inks then .ok m.parts.inks
      else .error (.classMismatch m.deviceClass.name m.parts.inks.named.letters) := by
  have read := InkSet.ofLetters_letters (α := ℝ) m.parts.inks
  have inks := findKeyword?_header keywords 4 rfl
  have deviceClass := findKeyword?_header keywords 3 rfl
  simp only [readInks, keyword, inks, deviceClass, bind, Except.bind, read, Except.mapError]
  by_cases same : m.parts.inks.named = m.parts.inks
  · rw [if_pos same, same]
    exact if_pos rfl
  · have other : m.deviceClass.name ≠ m.parts.inks.named.deviceClass.name := by
      intro equal
      refine same (InkSet.eq_of_has (fun _ => rfl) ?_)
      revert equal
      rw [Model.deviceClass, InkSet.deviceClass, InkSet.deviceClass]
      cases m.parts.inks.additive <;> cases m.parts.inks.named.additive <;> decide
    have known : m.deviceClass.name = DeviceClass.output.name ∨
        m.deviceClass.name = DeviceClass.display.name := by
      cases m.deviceClass
      · exact .inl rfl
      · exact .inr rfl
    rw [if_neg same, if_neg other, if_pos known]

theorem readOrder_header (valid : m.parts.Valid) : readOrder t = .ok m.parts.order := by
  have order := readCount_eq_ok (findKeyword?_header keywords 7 rfl)
    (n := m.parts.order) (by
      have := valid.order.2
      unfold maxOrder at this
      unfold Decimal.countBound
      omega)
  rw [readOrder, order]
  simp only [bind, Except.bind]
  rw [if_neg (by have := valid.order; omega)]

theorem readShaped_header : readShaped t = .ok m.parts.shaped := by
  rw [readShaped, findKeyword?_header keywords 8 rfl]
  cases m.parts.shaped <;> rfl

section Numbers

variable {enc : ColorEncoding} (faithful : Numeral.Faithful ℝ (· ∈ numbers enc m))
include faithful

theorem readLimit_header :
    readKeyword? Numeral.read? t limitKey = .ok (m.limit.map (· * 100)) :=
  readNumber?_eq_ok faithful (findKeyword?_header keywords 6 rfl) (mem_numbers_of_header enc 0 rfl)

/-- The layout is made anew from its four keywords. -/
theorem readSpectral_header (valid : m.parts.Valid) : readSpectral t =
    match m.parts.spectral with
    | none => .ok none
    | some s =>
      ((SpectralShape.make s.bands s.startNm s.endNm s.norm).map some).mapError .spectral := by
  have bands := findKeyword?_header keywords 14 rfl
  have start := findKeyword?_header keywords 15 rfl
  have last := findKeyword?_header keywords 16 rfl
  have norm := findKeyword?_header keywords 17 rfl
  have count := valid.spectral
  have startNumber := mem_numbers_of_header (m := m) enc 4 rfl
  have lastNumber := mem_numbers_of_header (m := m) enc 5 rfl
  have normNumber := mem_numbers_of_header (m := m) enc 6 rfl
  rw [Parts.spectralBands] at count
  cases spectral : m.parts.spectral with
  | none =>
      simp only [spectral, Option.map_none] at bands start last norm
      simp [readSpectral, spectralKeys, bands, start, last, norm]
  | some s =>
      simp only [spectral, Option.map_some] at bands start last norm
      simp only [spectral, Option.map_some] at startNumber lastNumber normNumber count
      have bound : s.bands < Decimal.countBound := by
        rw [Option.getD_some] at count
        unfold maxBands at count
        unfold Decimal.countBound
        omega
      rw [readSpectral]
      simp only [spectralKeys, bands, start, last, norm, List.filter_cons_of_pos, List.filter_nil,
        Option.isSome_some, List.isEmpty_cons, List.length_cons, List.length_nil,
        Bool.false_eq_true, ↓reduceIte, bind, Except.bind]
      rw [readCount_eq_ok bands bound, readNumber_eq_ok faithful start (startNumber _ rfl),
        readNumber_eq_ok faithful last (lastNumber _ rfl),
        readNumber_eq_ok faithful norm (normNumber _ rfl)]

theorem readSpectral_laidOut (valid : m.parts.Valid) (laid : m.parts.LaidOut) :
    readSpectral t = .ok m.parts.spectral := by
  rw [readSpectral_header keywords faithful valid]
  cases spectral : m.parts.spectral with
  | none => rfl
  | some s =>
      dsimp only
      rw [laid s spectral]
      rfl

theorem readBlackSettings_header (storable : m.tuning.Storable) :
    ∃ u, readBlackSettings t = .ok u ∧ u.SameBlack m.tuning := by
  have restarts := readCount?_eq_ok (findKeyword?_header keywords 9 rfl) fun n given => by
    obtain ⟨rfl, -⟩ := Option.guard_eq_some_iff.mp given
    exact storable.restarts
  have seed := readCount?_eq_ok (findKeyword?_header keywords 10 rfl) fun n given => by
    obtain ⟨rfl, -⟩ := Option.guard_eq_some_iff.mp given
    exact storable.seed
  have neutral := readNumber?_eq_ok faithful (findKeyword?_header keywords 11 rfl)
    (mem_numbers_of_header enc 1 rfl)
  have range := readNumber?_eq_ok faithful (findKeyword?_header keywords 12 rfl)
    (mem_numbers_of_header enc 2 rfl)
  have fail := readNumber?_eq_ok faithful (findKeyword?_header keywords 13 rfl)
    (mem_numbers_of_header enc 3 rfl)
  rw [readBlackSettings, restarts, seed, neutral, range, fail]
  refine ⟨_, rfl, ?_⟩
  constructor
  · exact getD_guard_ne m.tuning.blackRestarts _
  · exact getD_guard_ne m.tuning.blackSeed _
  · exact getD_guard_eqv m.tuning.neutralWeight _
  · exact getD_guard_eqv m.tuning.rangeWeight _
  · exact getD_guard_eqv m.tuning.blackFail _

end Numbers

end Header

/-- All values fit between quotes. -/
theorem headerEntries_quotable [Numeral ℝ] {m : Model ℝ} {enc : ColorEncoding}
    (faithful : Numeral.Faithful ℝ (· ∈ numbers enc m)) (quotable : m.parts.Quotable) :
    ∀ entry ∈ headerEntries m, ∀ v, entry.2 = some v → IsQuotable v := by
  have constant {s : String} (fits : IsQuotable s) : ∀ v, some s = some v → IsQuotable v := by
    intro v given
    cases given
    exact fits
  have deviceClass : IsQuotable m.deviceClass.name := by
    cases m.deviceClass <;> decide
  have shaped : IsQuotable (if m.parts.shaped then yesText else noText) := by
    cases m.parts.shaped <;> decide
  have number (i : ℕ) {value : Option ℝ} (entry : (headerValues m)[i]? = some value) :=
    isQuotable_number faithful (mem_numbers_of_header enc i entry)
  simp only [headerEntries, List.forall_mem_cons, List.not_mem_nil, false_imp_iff, implies_true,
    and_true]
  exact ⟨constant (by decide), constant (by decide), quotable.created, constant deviceClass,
    constant (isQuotable_letters _), quotable.instrument, number 0 rfl,
    constant (Decimal.isWord_repr _).isQuotable, constant shaped, isQuotable_count _,
    isQuotable_count _, number 1 rfl, number 2 rfl, number 3 rfl, isQuotable_count _,
    number 4 rfl, number 5 rfl, number 6 rfl⟩

end ModelFile

end InkModel
