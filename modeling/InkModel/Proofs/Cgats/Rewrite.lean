import InkModel.Proofs.Cgats.Blocks
import InkModel.Proofs.Cgats.RoundTrip

/-! # Files that are read and written again

The reader takes quoted texts for names of tables, keywords and fields, but the writer gives
names back without quotes. A file that was read comes back from what is written of it when its
names are words.
-/

namespace InkModel.Cgats

/-! The words of a text can be written. -/

theorem Token.Writable.isQuotable {t : Token} (h : t.Writable) : IsQuotable t.text := by
  cases h with
  | word h => exact h.isQuotable
  | quote h => exact h

theorem writable_of_tokenize {cs : List Char} {ts : List Token} (oneLine : '\n' ∉ cs)
    (words : tokenize cs = some ts) : ∀ t ∈ ts, t.Writable := by
  induction cs using tokenize.induct generalizing ts with
  | case1 =>
      cases tokenize_nil.symm.trans words
      simp
  | case2 c cs blank ih =>
      rw [tokenize_blank blank] at words
      exact ih (List.not_mem_of_not_mem_cons oneLine) words
  | case3 cs blank =>
      rw [tokenize, if_neg blank, if_pos rfl] at words
      cases words
      simp
  | case4 cs none blank comment =>
      rw [tokenize, if_neg blank, if_neg comment, if_pos rfl] at words
      split at words
      · cases words
      · rename_i found
        rw [none] at found
        cases found
  | case5 cs head rest found blank comment ih =>
      rw [tokenize, if_neg blank, if_neg comment, if_pos rfl] at words
      split at words
      · cases words
      · rename_i head' rest' found'
        obtain ⟨rfl, rfl⟩ := List.cons.inj (found.symm.trans found')
        obtain ⟨others, split, rfl⟩ := Option.map_eq_some_iff.mp words
        have whole := List.takeWhile_append_dropWhile (p := (· != quoteChar)) (l := cs)
        rw [found] at whole
        have inside : IsQuotable (String.ofList (cs.takeWhile (· != quoteChar))) := by
          constructor
          · rw [String.toList_ofList]
            intro mem
            simpa using List.mem_takeWhile_imp mem
          · rw [String.toList_ofList]
            intro mem
            exact oneLine (List.mem_cons_of_mem _ ((List.takeWhile_sublist _).mem mem))
        refine List.forall_mem_cons.mpr ⟨.quote inside, ih (fun mem => ?_) split⟩
        refine oneLine (List.mem_cons_of_mem _ ?_)
        rw [← whole]
        exact List.mem_append_right _ (List.mem_cons_of_mem _ mem)
  | case6 c cs blank comment quote ih =>
      rw [tokenize, if_neg blank, if_neg comment, if_neg quote] at words
      obtain ⟨others, split, rfl⟩ := Option.map_eq_some_iff.mp words
      have word : IsWord (String.ofList (c :: cs.takeWhile isWordChar)) := by
        refine ⟨by simp, fun x mem => ?_, by simpa using comment⟩
        rw [String.toList_ofList] at mem
        rcases List.mem_cons.mp mem with rfl | later
        · exact isWordChar_iff.mpr ⟨by simpa using blank, quote⟩
        · exact List.mem_takeWhile_imp later
      refine List.forall_mem_cons.mpr ⟨.word word, ih (fun mem => ?_) split⟩
      exact oneLine (List.mem_cons_of_mem _ ((List.dropWhile_sublist _).mem mem))

theorem mem_of_mem_dropReturn {line : List Char} {c : Char} (mem : c ∈ dropReturn line) :
    c ∈ line := by
  unfold dropReturn at mem
  split at mem
  · rename_i rest reversed
    have := List.mem_reverse.mp mem
    rw [← List.mem_reverse, reversed]
    exact List.mem_cons_of_mem _ this
  · exact mem

theorem not_mem_of_mem_charLines {cs : List Char} :
    ∀ line ∈ charLines cs, '\n' ∉ line := by
  induction size : cs.length using Nat.strongRecOn generalizing cs with
  | _ size' ih =>
    rcases exists_line cs with open_ | ⟨line, rest, ends, rfl⟩
    · rw [charLines_tail open_]
      split
      · simp
      · simpa using open_
    · have shorter : rest.length < size' := by
        simp only [← size, List.length_append, List.length_cons]
        omega
      rw [charLines_line ends]
      exact List.forall_mem_cons.mpr ⟨fun mem => ends (mem_of_mem_dropReturn mem), ih _ shorter rfl⟩

theorem writable_of_textLines {s : String} {lines : List (List Token)}
    (words : (textLines s).mapM tokenize = some lines) : ∀ ts ∈ lines, ∀ t ∈ ts, t.Writable := by
  intro ts mem
  obtain ⟨line, own, split⟩ := exists_mem_of_forall₂ (forall₂_of_mapM words).flip mem
  exact writable_of_tokenize (not_mem_of_mem_charLines line own) split

theorem isQuotable_intercalate {texts : List String} (h : ∀ s ∈ texts, IsQuotable s) :
    IsQuotable (String.intercalate " " texts) := by
  induction texts with
  | nil => decide
  | cons s texts ih =>
      obtain ⟨first, others⟩ := List.forall_mem_cons.mp h
      cases texts with
      | nil => simpa using first
      | cons u texts =>
          rw [String.intercalate_cons_cons]
          exact (first.append (by decide)).append (ih others)

variable {α : Type} [Numeral α] {number : α → Prop}

/-- Whether all names of a table are words that the format leaves free. -/
structure Table.IsBare (t : Table α) : Prop where
  kind : IsWord t.kind
  keywordNames : ∀ k ∈ t.keywords, IsWord k.1
  fieldNames : ∀ f ∈ t.fields, IsWord f.name ∧ f.name ≠ endFormatWord

omit [Numeral α] in
instance (t : Table α) : Decidable t.IsBare :=
  decidable_of_iff (IsWord t.kind ∧ (∀ k ∈ t.keywords, IsWord k.1) ∧
    ∀ f ∈ t.fields, IsWord f.name ∧ f.name ≠ endFormatWord)
    ⟨fun ⟨h₁, h₂, h₃⟩ => ⟨h₁, h₂, h₃⟩, fun ⟨h₁, h₂, h₃⟩ => ⟨h₁, h₂, h₃⟩⟩

/-- Whether the numbers of a table and its sizes are such as read back. -/
structure Table.Fits (number : α → Prop) (t : Table α) : Prop where
  numbers : ∀ row ∈ t.rows, ∀ c ∈ row, ∀ x ∈ c.asReal?, number x
  fieldCount : t.fields.size < Decimal.countBound
  setCount : t.rows.size < Decimal.countBound

omit [Numeral α] in
instance [DecidablePred number] (t : Table α) : Decidable (t.Fits number) :=
  decidable_of_iff ((∀ row ∈ t.rows, ∀ c ∈ row, ∀ x ∈ c.asReal?, number x) ∧
    t.fields.size < Decimal.countBound ∧ t.rows.size < Decimal.countBound)
    ⟨fun ⟨h₁, h₂, h₃⟩ => ⟨h₁, h₂, h₃⟩, fun ⟨h₁, h₂, h₃⟩ => ⟨h₁, h₂, h₃⟩⟩

namespace Block

variable {b : Block} {part : List (List Token)}

/-- The keywords of a block are no words of the format, and their values fit between quotes. -/
theorem Written.keywords (h : b.Written part) (words : ∀ ts ∈ part, ∀ t ∈ ts, t.Writable) :
    ∀ k ∈ b.keywords, k.1 ∉ reservedWords ∧ IsQuotable k.2 := by
  cases h with
  | @lines kind begins ends kindRest beginsRest endsRest header named items data last =>
      intro k mem
      obtain ⟨item, hitem, value⟩ := List.mem_filterMap.mp mem
      obtain ⟨lines, inHeader, written⟩ := exists_mem_of_forall₂ items hitem
      cases written with
      | @keyword head rest free =>
          cases value
          refine ⟨free, isQuotable_intercalate fun s mem => ?_⟩
          obtain ⟨t, ht, rfl⟩ := List.mem_map.mp mem
          have line : head :: rest ∈ header.flatten :=
            List.mem_flatten.mpr ⟨_, inHeader, List.mem_singleton_self _⟩
          refine (words (head :: rest) ?_ t (List.mem_cons_of_mem _ ht)).isQuotable
          exact List.mem_cons_of_mem _ (List.mem_append_left _ line)
      | _ => cases value

theorem Written.row_mem (h : b.Written part) {row : List Token} (mem : row ∈ b.rows) :
    row ∈ part := by
  cases h
  simp [mem]

theorem Written.writable (h : b.Written part) (valid : b.Valid)
    (words : ∀ ts ∈ part, ∀ t ∈ ts, t.Writable) (bare : (b.table : Table α).IsBare)
    (fits : (b.table : Table α).Fits number) : (b.table : Table α).Writable number where
  kind := bare.kind
  keywordNames := fun k mem =>
    ⟨bare.keywordNames k mem, (h.keywords words k (mem_lastValues mem)).1⟩
  keywordValues := fun k mem => (h.keywords words k (mem_lastValues mem)).2
  fieldNames := bare.fieldNames
  someField := by simpa [table] using valid.named
  someSet := by
    by_cases none : b.rows = []
    · refine .inr fun f mem => ?_
      obtain ⟨i, hi, rfl⟩ := Array.mem_iff_getElem.mp mem
      simp [table, isNumeric, none]
    · exact .inl (by simpa [table] using none)
  cells := fun row mem c hc => by
    cases c with
    | real x => exact .real (fits.numbers row mem _ hc x rfl)
    | text s =>
        obtain ⟨tokens, htokens, rfl⟩ := List.mem_map.mp (List.mem_toArray.mp mem)
        obtain ⟨i, hi, cell⟩ := List.mem_mapIdx.mp (List.mem_toArray.mp hc)
        have written := words tokens (h.row_mem htokens) _ (List.getElem_mem hi)
        unfold Block.cell at cell
        split at cell
        · cases cell
        · cases cell
          exact .text written.isQuotable
  fieldCount := fits.fieldCount
  setCount := fits.setCount

end Block

/-- A file that was read comes back from what is written of it, when all its names are words that
the format leaves free and all its numbers read back. -/
theorem readText_render_readText (faithful : Numeral.Faithful α number) {s : String} {f : File α}
    (read : readText s = .ok f) (bare : ∀ t ∈ f, t.IsBare)
    (fits : ∀ t ∈ f, t.Fits number) : readText (render f) = .ok f := by
  obtain ⟨lines, blocks, parts, words, same, written, valid, some, rfl⟩ :=
    readText_eq_ok_iff_blocks.mp read
  refine readText_render_of_wellFormed faithful (by simpa using some) (readText_wellFormed read) ?_
  intro t mem
  obtain ⟨b, hb, rfl⟩ := List.mem_map.mp mem
  obtain ⟨part, hpart, block⟩ := exists_mem_of_forall₂ written hb
  refine block.writable (valid b hb) (fun ts hts => ?_) (bare _ mem) (fits _ mem)
  have line : ts ∈ lines.filter (· ≠ []) := same ▸ List.mem_flatten.mpr ⟨part, hpart, hts⟩
  exact writable_of_textLines words ts (List.mem_filter.mp line).1

/-- A text with a comment, a keyword that is set twice and names over several lines. -/
def looseText : String :=
  "CTI3 # first\nLAMP D50\nLAMP  A 2856\nBEGIN_DATA_FORMAT ID\nY END_DATA_FORMAT\nBEGIN_DATA\n" ++
    "\"#\" 3\nEND_DATA"

def looseTable : Table ℕ where
  kind := "CTI3"
  keywords := [("LAMP", "A 2856")]
  fields := #[⟨"ID", .text⟩, ⟨"Y", .real⟩]
  rows := #[#[.text "#", .real 3]]

attribute [local instance] Numeral.nat

theorem readText_render_looseText :
    readText looseText = .ok [looseTable] ∧ readText (render [looseTable]) = .ok [looseTable] := by
  have read : readText looseText = .ok [looseTable] := by cbv
  exact ⟨read, readText_render_readText Numeral.nat_faithful read (by decide) (by decide)⟩

/-- A text with quoted names for a keyword and a field. -/
def quotedText (key field : String) : String :=
  "K\n" ++ quoted key ++ " 1\nBEGIN_DATA_FORMAT " ++ quoted field ++
    " END_DATA_FORMAT\nBEGIN_DATA\nEND_DATA"

/-- The table of such a text. -/
def quotedTable (key field : String) : Table ℕ where
  kind := "K"
  keywords := [(key, "1")]
  fields := #[⟨field, .real⟩]

theorem readText_render_eq {f : File α} {texts : List String} (written : fileLines f = texts)
    (lines : ∀ line ∈ texts, IsLine line.toList) :
    (readText (render f) : Except TableError (File α)) =
      readFrom 0 .between #[] (texts.map fun line => some line.toList) := by
  rw [readText, textLines_render_of_isLine (written ▸ lines), written, List.map_map]
  rfl

/-- A name with a blank, written without quotes, makes two fields, or another keyword. -/
theorem quoted_names_lost :
    readText (quotedText "A" "F G") = .ok [quotedTable "A" "F G"] ∧
      readText (render [quotedTable "A" "F G"]) =
        (.error (.malformed 13 (.fieldCount 1 2)) : Except TableError (File ℕ)) ∧
    readText (quotedText "A B" "F") = .ok [quotedTable "A B" "F"] ∧
      readText (render [quotedTable "A B" "F"]) =
        .ok [{ quotedTable "A B" "F" with keywords := [("A", "B 1")] }] := by
  have field : fileLines [quotedTable "A" "F G"] =
      ["K", "", "KEYWORD \"A\"", "A \"1\"", "", "NUMBER_OF_FIELDS 1", "BEGIN_DATA_FORMAT", "F G",
        "END_DATA_FORMAT", "", "NUMBER_OF_SETS 0", "BEGIN_DATA", "END_DATA"] := by decide
  have key : fileLines [quotedTable "A B" "F"] =
      ["K", "", "KEYWORD \"A B\"", "A B \"1\"", "", "NUMBER_OF_FIELDS 1", "BEGIN_DATA_FORMAT", "F",
        "END_DATA_FORMAT", "", "NUMBER_OF_SETS 0", "BEGIN_DATA", "END_DATA"] := by decide
  rw [readText_render_eq field (by decide), readText_render_eq key (by decide)]
  refine ⟨?_, ?_, ?_, ?_⟩
  · cbv
  · cbv
  · cbv
  · cbv

end InkModel.Cgats
