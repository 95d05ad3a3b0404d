import InkModel.Proofs.Cgats.Reader
import InkModel.Proofs.Cgats.Run
import InkModel.Proofs.Cgats.Writer

/-! # Reading undoes writing

Reading the lines of a table goes through the phases in one pass and collects
the words again. The types of the fields are found back because texts are
written in quotes.
-/

namespace InkModel.Cgats

variable {α : Type} [Numeral α] {number : α → Prop}

/-! One pass through the phases. -/

/-- Lines of words read back as they are written, and reading them leads from one
phase to another and finishes tables. -/
structure Reads (lines : List (List Token)) (phase phase' : Phase) (done : List (Table α)) :
    Prop where
  writable : ∀ ts ∈ lines, ∀ t ∈ ts, t.Writable
  run : Run phase (lines.filter (· ≠ [])) phase' done

namespace Reads

variable {lines lines' : List (List Token)} {phase phase' phase'' : Phase}
  {done done' : List (Table α)}

theorem nil (phase : Phase) : Reads [] phase phase ([] : List (Table α)) where
  writable := by simp
  run := .nil phase

theorem append (h : Reads lines phase phase' done) (h' : Reads lines' phase' phase'' done') :
    Reads (lines ++ lines') phase phase'' (done ++ done') where
  writable := by
    intro ts mem
    rcases List.mem_append.mp mem with first | second
    · exact h.writable ts first
    · exact h'.writable ts second
  run := by
    rw [List.filter_append]
    exact h.run.append h'.run

theorem blank (phase : Phase) : Reads [[]] phase phase ([] : List (Table α)) where
  writable := by simp
  run := .nil phase

theorem step {found : Option (Table α)} {head : Token} {ts : List Token}
    (h : ∀ t ∈ head :: ts, t.Writable) (stepped : LineStep phase head ts phase' found) :
    Reads [head :: ts] phase phase' found.toList where
  writable := by
    intro line mem
    rw [List.mem_singleton.mp mem]
    exact h
  run := by simpa using Run.cons stepped (.nil phase')

end Reads

/-! The lines of a table, phase by phase. -/

section Phases

variable {d : Draft}

theorem writable_bareLine {s : String} (h : IsWord s) : ∀ t ∈ bareLine s, t.Writable := by
  intro t mem
  rw [List.mem_singleton.mp mem]
  exact .word h

theorem writable_countTokens {word : String} (h : IsWord word) (n : Nat) :
    ∀ t ∈ countTokens word n, t.Writable := by
  intro t mem
  rcases List.mem_pair.mp mem with rfl | rfl
  · exact .word h
  · exact .word (Decimal.isWord_repr n)

/-- The words of the format itself are words. -/
theorem isWord_formatWords :
    IsWord keywordWord ∧ IsWord fieldCountWord ∧ IsWord setCountWord ∧ IsWord beginFormatWord ∧
      IsWord endFormatWord ∧ IsWord beginDataWord ∧ IsWord endDataWord := by
  decide

theorem reads_kind {kind : String} (h : IsWord kind) :
    Reads [bareLine kind] .between (.header { kind }) ([] : List (Table α)) :=
  .step (writable_bareLine h) .kind

theorem reads_keyword {name value : String} (word : IsWord name) (free : name ∉ reservedWords)
    (quotable : IsQuotable value) (fresh : name ∉ d.keywords.map Prod.fst) :
    Reads (keywordTokens name value) (.header d)
      (.header { d with keywords := d.keywords ++ [(name, value)] }) ([] : List (Table α)) := by
  have declared : Reads [[⟨keywordWord, false⟩, ⟨name, true⟩]] (.header d) (.header d)
      ([] : List (Table α)) := by
    refine .step ?_ (.header (.declaration rfl))
    intro t mem
    rcases List.mem_pair.mp mem with rfl | rfl
    · exact .word isWord_formatWords.1
    · exact .quote word.isQuotable
  have set : Reads [[⟨name, false⟩, ⟨value, true⟩]] (.header d)
      (.header { d with keywords := d.keywords ++ [(name, value)] }) ([] : List (Table α)) := by
    refine .step ?_ (.header ?_)
    · intro t mem
      rcases List.mem_pair.mp mem with rfl | rfl
      · exact .word word
      · exact .quote quotable
    · rw [← setKey_new fresh value]
      exact .keyword free
  unfold keywordTokens
  split
  · exact set
  · exact declared.append set

theorem reads_keywords {keywords : List (String × String)}
    (words : ∀ k ∈ keywords, IsWord k.1 ∧ k.1 ∉ reservedWords)
    (quotable : ∀ k ∈ keywords, IsQuotable k.2)
    (nodup : ((d.keywords ++ keywords).map Prod.fst).Nodup) :
    Reads (keywords.flatMap fun (name, value) => keywordTokens name value) (.header d)
      (.header { d with keywords := d.keywords ++ keywords }) ([] : List (Table α)) := by
  induction keywords generalizing d with
  | nil => simpa using Reads.nil (α := α) (.header d)
  | cons k keywords ih =>
      have fresh : k.1 ∉ d.keywords.map Prod.fst := by
        intro mem
        rw [List.map_append, List.map_cons] at nodup
        exact (List.nodup_append.mp nodup).2.2 k.1 mem k.1 List.mem_cons_self rfl
      have first := words k List.mem_cons_self
      have read : Reads (keywordTokens k.1 k.2) (.header d)
          (.header { d with keywords := d.keywords ++ [k] }) ([] : List (Table α)) :=
        reads_keyword first.1 first.2 (quotable k List.mem_cons_self) fresh
      have others := ih (d := { d with keywords := d.keywords ++ [k] })
        (fun k' mem => words k' (List.mem_cons_of_mem k mem))
        (fun k' mem => quotable k' (List.mem_cons_of_mem k mem)) (by simpa using nodup)
      simpa using read.append others

theorem countOf_repr (head : Token) {n : Nat} (h : n < Decimal.countBound) :
    countOf head [⟨n.repr, false⟩] = .ok n := by
  simp [countOf, Decimal.readCount_repr h]

theorem reads_fieldCount {n : Nat} (h : n < Decimal.countBound) :
    Reads [countTokens fieldCountWord n] (.header d) (.header { d with fieldCount := some n })
      ([] : List (Table α)) :=
  .step (writable_countTokens isWord_formatWords.2.1 n)
    (.header (.fieldCount rfl (countOf_repr _ h)))

theorem reads_setCount {n : Nat} (h : n < Decimal.countBound) :
    Reads [countTokens setCountWord n] (.header d) (.header { d with setCount := some n })
      ([] : List (Table α)) :=
  .step (writable_countTokens isWord_formatWords.2.2.1 n)
    (.header (.setCount rfl (countOf_repr _ h)))

theorem reads_beginFormat :
    Reads [bareLine beginFormatWord] (.header d) (.format d) ([] : List (Table α)) :=
  .step (writable_bareLine isWord_formatWords.2.2.2.1) (.header (.openFormat rfl rfl))

theorem reads_endFormat :
    Reads [bareLine endFormatWord] (.format d) (.header d) ([] : List (Table α)) :=
  .step (writable_bareLine isWord_formatWords.2.2.2.2.1) (.lastNames rfl)

theorem reads_beginData (named : d.names ≠ #[]) :
    Reads [bareLine beginDataWord] (.header d) (.data d) ([] : List (Table α)) :=
  .step (writable_bareLine isWord_formatWords.2.2.2.2.2.1) (.header (.data rfl named))

theorem addNames_append {names : List String} (free : ∀ name ∈ names, name ≠ endFormatWord)
    (nodup : (d.names.toList ++ names).Nodup) :
    d.addNames (names.map fun name => ⟨name, false⟩) =
      .ok ({ d with names := d.names ++ names.toArray }, false) := by
  have inside : ∀ t ∈ names.map fun name => (⟨name, false⟩ : Token),
      t.isBare endFormatWord = false := by
    simpa [Token.isBare] using free
  have all : sectionNames (names.map fun name => ⟨name, false⟩) = names := by
    rw [sectionNames, List.takeWhile_eq_self_iff.mpr (by simpa using inside)]
    simp [Function.comp_def]
  rw [Draft.addNames_eq_ok_iff (List.nodup_append.mp nodup).1, all]
  refine ⟨nodup, rfl, ?_⟩
  simpa [endsSection] using inside

theorem reads_names {names : List String} (some : names ≠ [])
    (words : ∀ name ∈ names, IsWord name ∧ name ≠ endFormatWord)
    (nodup : (d.names.toList ++ names).Nodup) :
    Reads [names.map fun name => ⟨name, false⟩] (.format d)
      (.format { d with names := d.names ++ names.toArray }) ([] : List (Table α)) := by
  have added := addNames_append (fun name mem => (words name mem).2) nodup
  have writable : ∀ t ∈ names.map fun name => (⟨name, false⟩ : Token), t.Writable := by
    intro t mem
    obtain ⟨name, hname, rfl⟩ := List.mem_map.mp mem
    exact .word (words name hname).1
  cases names with
  | nil => exact absurd rfl some
  | cons name names => exact .step writable (.names added)

theorem Cell.not_endOfData (faithful : Numeral.Faithful α number) {c : Cell α}
    (h : c.Writable number) : c.token.isBare endDataWord = false := by
  cases h with
  | text => rfl
  | real h =>
      rename_i x
      have other : Numeral.text x ≠ endDataWord := by
        intro same
        have reads := faithful.reads x h
        rw [same, faithful.endOfData] at reads
        cases reads
      simpa [Cell.token, Token.isBare] using other

theorem reads_row (faithful : Numeral.Faithful α number) {row : Array (Cell α)}
    (writable : ∀ c ∈ row, c.Writable number) (size : row.size = d.names.size)
    (named : d.names ≠ #[]) :
    Reads [row.toList.map Cell.token] (.data d)
      (.data { d with rows := d.rows.push (row.map Cell.token) }) ([] : List (Table α)) := by
  have tokens : ∀ t ∈ row.toList.map Cell.token, t.Writable := by
    intro t mem
    obtain ⟨c, hc, rfl⟩ := List.mem_map.mp mem
    exact (writable c (Array.mem_toList_iff.mp hc)).token faithful
  obtain ⟨cells⟩ := row
  cases cells with
  | nil =>
      have : d.names = #[] := Array.eq_empty_of_size_eq_zero size.symm
      exact absurd this named
  | cons c cells =>
      have inside := Cell.not_endOfData faithful (writable c (by simp))
      have count : (cells.map Cell.token).length + 1 = d.names.size := by simpa using size
      have stepped : LineStep (.data d) c.token (cells.map Cell.token)
          (.data { d with rows := d.rows.push (c.token :: cells.map Cell.token).toArray })
          (none : Option (Table α)) := .row inside count
      simpa using Reads.step (by simpa using tokens) stepped

theorem reads_rows (faithful : Numeral.Faithful α number) {rows : List (Array (Cell α))}
    (writable : ∀ row ∈ rows, ∀ c ∈ row, c.Writable number)
    (sizes : ∀ row ∈ rows, row.size = d.names.size) (named : d.names ≠ #[]) :
    Reads (rows.map fun row => row.toList.map Cell.token) (.data d)
      (.data { d with rows := d.rows ++ (rows.map fun row => row.map Cell.token).toArray })
      ([] : List (Table α)) := by
  induction rows generalizing d with
  | nil => simpa using Reads.nil (α := α) (.data d)
  | cons row rows ih =>
      have read := reads_row faithful (writable row List.mem_cons_self)
        (sizes row List.mem_cons_self) named
      have others := ih (d := { d with rows := d.rows.push (row.map Cell.token) })
        (fun r mem => writable r (List.mem_cons_of_mem row mem))
        (fun r mem => sizes r (List.mem_cons_of_mem row mem)) named
      simpa using read.append others

end Phases

/-! The table that is finished. -/

/-- A table as the reader collects it. -/
def Table.draft (t : Table α) : Draft where
  kind := t.kind
  keywords := t.keywords
  names := t.fields.map Field.name
  rows := t.rows.map fun row => row.map Cell.token
  fieldCount := some t.fields.size
  setCount := some t.rows.size

section Finish

variable {t : Table α}

theorem Cell.isNumeral_token (faithful : Numeral.Faithful α number) {c : Cell α}
    (h : c.Writable number) : Draft.isNumeral α c.token = decide (c.type = .real) := by
  cases h with
  | text => rfl
  | real h => simp [Cell.token, Draft.isNumeral, Cell.type, faithful.reads _ h]

theorem Cell.cellOf_token (faithful : Numeral.Faithful α number) {c : Cell α}
    (h : c.Writable number) : Draft.cellOf c.token c.type = c := by
  cases h with
  | text => rfl
  | real h =>
      unfold Draft.cellOf
      simp [Cell.token, Cell.type, faithful.reads _ h]

theorem columnType_draft (faithful : Numeral.Faithful α number) (wf : t.WellFormed)
    (writable : t.Writable number) {i : ℕ} (hi : i < t.fields.size) :
    t.draft.columnType α i = t.fields[i].type := by
  have entry : ∀ row ∈ t.rows, ((row.map Cell.token)[i]?).all (Draft.isNumeral α) =
      decide (t.fields[i].type = .real) := by
    intro row mem
    have inside : i < row.size := (wf.row_size mem).symm ▸ hi
    rw [← wf.cell_type mem inside hi,
      ← Cell.isNumeral_token faithful (writable.cells row mem _ (Array.getElem_mem inside))]
    simp [inside]
  have all : t.draft.rows.all (fun row => (row[i]?).all (Draft.isNumeral α)) =
      t.rows.all fun _ => decide (t.fields[i].type = .real) := by
    rw [Table.draft, Array.all_map]
    rw [Bool.eq_iff_iff, Array.all_eq_true_iff_forall_mem, Array.all_eq_true_iff_forall_mem]
    exact forall₂_congr fun row mem => by rw [← entry row mem]; rfl
  rw [Draft.columnType, all]
  cases type : t.fields[i].type with
  | real => simp
  | text =>
      rcases writable.someSet with some | reals
      · refine if_neg fun every => some (Array.eq_empty_iff_forall_not_mem.mpr fun row mem => ?_)
        simpa using Array.all_eq_true_iff_forall_mem.mp every row mem
      · have := reals _ (Array.getElem_mem hi)
        simp [type] at this

theorem finish_draft (faithful : Numeral.Faithful α number) (wf : t.WellFormed)
    (writable : t.Writable number) : t.draft.finish = .ok t := by
  have fields : (t.draft.names.mapIdx fun i name =>
      (⟨name, t.draft.columnType α i⟩ : Field)) = t.fields := by
    apply Array.ext (by simp [Table.draft])
    intro i h₁ h₂
    rw [Array.getElem_mapIdx, columnType_draft faithful wf writable h₂]
    simp [Table.draft]
  have rows : (t.draft.rows.map fun row => Array.zipWith
      (fun t (f : Field) => (Draft.cellOf t f.type : Cell α)) row t.fields) = t.rows := by
    rw [Table.draft, Array.map_map]
    refine (Array.map_congr_left fun row mem => ?_).trans (Array.map_id _)
    apply Array.ext (by simp [wf.row_size mem])
    intro i h₁ h₂
    have hi : i < row.size := h₂
    have hf : i < t.fields.size := wf.row_size mem ▸ hi
    have cell := writable.cells row mem _ (Array.getElem_mem hi)
    simp only [Function.comp_apply, Array.getElem_zipWith, Array.getElem_map, id_eq]
    rw [← wf.cell_type mem hi hf, Cell.cellOf_token faithful cell]
  unfold Draft.finish
  rw [if_neg (by simp [Table.draft]), if_neg (by simp [Table.draft]), fields]
  dsimp only
  rw [rows]
  rfl

end Finish

/-! Tables and files. -/

theorem Table.reads_body (faithful : Numeral.Faithful α number) {t : Table α} (wf : t.WellFormed)
    (writable : t.Writable number) :
    Reads t.bodyLines .between (.data t.draft) ([] : List (Table α)) := by
  have named : t.fields.map Field.name ≠ #[] := by simpa using writable.someField
  have words : ∀ name ∈ t.fields.toList.map Field.name, IsWord name ∧ name ≠ endFormatWord := by
    intro name mem
    obtain ⟨f, hf, rfl⟩ := List.mem_map.mp mem
    exact writable.fieldNames f (Array.mem_toList_iff.mp hf)
  let opened : Draft := { kind := t.kind }
  let described : Draft := { opened with keywords := t.keywords }
  let counted : Draft := { described with fieldCount := some t.fields.size }
  let formatted : Draft := { counted with names := t.fields.map Field.name }
  let complete : Draft := { formatted with setCount := some t.rows.size }
  have keywords : Reads (t.keywords.flatMap fun (name, value) => keywordTokens name value)
      (.header opened) (.header described) ([] : List (Table α)) :=
    reads_keywords writable.keywordNames writable.keywordValues wf.keywords
  have fieldCount : Reads [countTokens fieldCountWord t.fields.size] (.header described)
      (.header counted) ([] : List (Table α)) := reads_fieldCount writable.fieldCount
  have names : Reads [t.fields.toList.map fun f => (⟨f.name, false⟩ : Token)] (.format counted)
      (.format formatted) ([] : List (Table α)) := by
    have := reads_names (α := α) (d := counted) (by simpa using writable.someField) words
      (by simpa [counted, described, opened] using wf.fields)
    have table : (t.fields.toList.map Field.name).toArray = t.fields.map Field.name := by
      rw [← Array.toList_map, Array.toArray_toList]
    rw [table, List.map_map] at this
    change Reads _ _ (.format { counted with names := #[] ++ t.fields.map Field.name })
      ([] : List (Table α)) at this
    rwa [Array.empty_append] at this
  have setCount : Reads [countTokens setCountWord t.rows.size] (.header formatted)
      (.header complete) ([] : List (Table α)) := reads_setCount writable.setCount
  have rows : Reads (t.rows.toList.map fun row => row.toList.map Cell.token) (.data complete)
      (.data t.draft) ([] : List (Table α)) := by
    have := reads_rows (d := complete) faithful
      (fun row mem => writable.cells row (Array.mem_toList_iff.mp mem))
      (fun row mem => by
        simpa [complete, formatted] using wf.row_size (Array.mem_toList_iff.mp mem)) named
    have table : (t.rows.toList.map fun row => row.map Cell.token).toArray = t.draft.rows := by
      rw [← Array.toList_map, Array.toArray_toList]
      rfl
    rw [table] at this
    change Reads _ _ (.data { complete with rows := #[] ++ t.draft.rows })
      ([] : List (Table α)) at this
    rwa [Array.empty_append] at this
  have lines : t.bodyLines = [bareLine t.kind] ++ ([[]] ++
      (t.keywords.flatMap (fun (name, value) => keywordTokens name value) ++ ([[]] ++
      ([countTokens fieldCountWord t.fields.size] ++ ([bareLine beginFormatWord] ++
      ([t.fields.toList.map fun f => ⟨f.name, false⟩] ++ ([bareLine endFormatWord] ++ ([[]] ++
      ([countTokens setCountWord t.rows.size] ++ ([bareLine beginDataWord] ++
      t.rows.toList.map fun row => row.toList.map Cell.token)))))))))) := by
    simp [Table.bodyLines]
  rw [lines]
  exact (reads_kind writable.kind).append ((Reads.blank _).append (keywords.append
    ((Reads.blank _).append (fieldCount.append (reads_beginFormat.append (names.append
    (reads_endFormat.append ((Reads.blank _).append (setCount.append
    ((reads_beginData named).append rows))))))))))

theorem Table.reads (faithful : Numeral.Faithful α number) {t : Table α} (wf : t.WellFormed)
    (writable : t.Writable number) : Reads t.tokenLines .between .between [t] := by
  have ends : Token.isBare ⟨endDataWord, false⟩ endDataWord = true := by decide
  have ended : Reads [bareLine endDataWord] (.data t.draft) .between [t] :=
    .step (writable_bareLine isWord_formatWords.2.2.2.2.2.2)
      (.finish ends (finish_draft faithful wf writable))
  exact (t.reads_body faithful wf writable).append ended

theorem file_reads (faithful : Numeral.Faithful α number) {f : File α}
    (wf : ∀ t ∈ f, t.WellFormed) (writable : ∀ t ∈ f, t.Writable number) :
    Reads (fileTokenLines f) .between .between f := by
  induction f with
  | nil => exact Reads.nil _
  | cons t ts ih =>
      have first := t.reads faithful (wf t List.mem_cons_self) (writable t List.mem_cons_self)
      cases ts with
      | nil => exact first
      | cons u ts =>
          have others := ih (fun t mem => wf t (List.mem_cons_of_mem _ mem))
            fun t mem => writable t (List.mem_cons_of_mem _ mem)
          rw [fileTokenLines]
          · exact first.append ((Reads.blank _).append others)
          · exact List.cons_ne_nil u ts

theorem readText_of_reads {lines : List (List Token)} {f : File α}
    (reads : Reads lines .between .between f) (some : f ≠ []) {s : String}
    (text : charLines s.toList = lines.map lineChars) : readText s = .ok f := by
  refine readText_eq_ok_iff.mpr ⟨some, lines, ?_, reads.run⟩
  rw [textLines_eq, text, mapM_tokenize_lineChars reads.writable]

theorem readText_render_of_wellFormed (faithful : Numeral.Faithful α number) {f : File α}
    (some : f ≠ []) (wf : ∀ t ∈ f, t.WellFormed) (writable : ∀ t ∈ f, t.Writable number) :
    readText (render f) = .ok f := by
  have reads := file_reads faithful wf writable
  refine readText_of_reads reads some ?_
  rw [toList_render, charLines_linesChars reads.writable]

/-- Reading undoes writing, for all tables that can be had of the library. -/
theorem readText_render (faithful : Numeral.Faithful α number) {f : File α} (some : f ≠ [])
    (built : ∀ t ∈ f, t.Built) (writable : ∀ t ∈ f, t.Writable number) :
    readText (render f) = .ok f :=
  readText_render_of_wellFormed faithful some (fun t mem => (built t mem).wellFormed) writable

/-- Two tables: texts that look like words of the format, and a table without
data sets. -/
def twoTables : File Nat :=
  [{ kind := "CTI3"
     keywords := [("DESCRIPTOR", "a # b"), ("COLOR_REP", "")]
     fields := #[⟨"SAMPLE_ID", .text⟩, ⟨"XYZ_Y", .real⟩]
     rows := #[#[.text "END_DATA", .real 100], #[.text "", .real 7]] },
   { kind := "CAL"
     fields := #[⟨"RGB_I", .real⟩] }]

attribute [local instance] Numeral.nat

theorem twoTables_built : ∀ t ∈ twoTables, t.Built := by
  let t : Table Nat := twoTables[0]
  have described : Table.Built ({ t with fields := #[], rows := #[] } : Table Nat) :=
    .keyword (.keyword (.new "CTI3") "DESCRIPTOR" "a # b") "COLOR_REP" ""
  have named :
      Table.Built ({ t with fields := #[⟨"SAMPLE_ID", .text⟩], rows := #[] } : Table Nat) :=
    described.field "SAMPLE_ID" .text (Table.addField_eq_ok rfl (by decide) _)
  have formatted : Table.Built ({ t with rows := #[] } : Table Nat) :=
    named.field "XYZ_Y" .real (Table.addField_eq_ok rfl (by decide) _)
  have begun : Table.Built ({ t with rows := #[#[.text "END_DATA", .real 100]] } : Table Nat) :=
    formatted.set #[.text "END_DATA", .real 100]
      (Table.addSet_eq_ok (by simp [t, twoTables, Cell.type]))
  have first : Table.Built t :=
    begun.set #[.text "", .real 7] (Table.addSet_eq_ok (by simp [t, twoTables, Cell.type]))
  have second : Table.Built twoTables[1] :=
    Table.Built.field (.new "CAL") "RGB_I" .real (Table.addField_eq_ok rfl (by decide) _)
  intro t mem
  rcases List.mem_pair.mp mem with rfl | rfl
  · exact first
  · exact second

theorem readText_render_twoTables : readText (render twoTables) = .ok twoTables :=
  readText_render Numeral.nat_faithful (by decide) twoTables_built (by decide)

end InkModel.Cgats
