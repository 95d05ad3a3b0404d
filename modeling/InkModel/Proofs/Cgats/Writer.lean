import InkModel.Proofs.Cgats.Step
import InkModel.Proofs.Cgats.Token
import InkModel.Proofs.Decimal.Count

/-! # What is written

Every line of a file is a line of words. A file reads back when the numbers do,
names look like words, texts fit between quotes, and nothing has the name of a
word of the format.
-/

namespace InkModel

/-- What files need of the texts of numbers: they read back and form words, and
neither the end of the data nor nothing at all is taken for a number. -/
structure Numeral.Faithful (α : Type) [Numeral α] (number : α → Prop) : Prop where
  reads : ∀ x, number x → Numeral.read? (Numeral.text x) = some x
  chars : ∀ x, number x → ∀ c ∈ (Numeral.text x).toList, Cgats.isWordChar c = true
  uncommented : ∀ x, number x → (Numeral.text x).toList.head? ≠ some Cgats.commentChar
  empty : (Numeral.read? "" : Option α) = none
  endOfData : (Numeral.read? Cgats.endDataWord : Option α) = none

/-- Natural numbers by their digits, for files that hold no others. -/
@[reducible] def Numeral.nat : Numeral Nat where
  text := Nat.repr
  read? := Decimal.readCount
  places _ := Nat.repr

attribute [local instance] Numeral.nat

theorem Numeral.nat_faithful : Numeral.Faithful Nat (· < Decimal.countBound) where
  reads := fun _ h => Decimal.readCount_repr h
  chars := fun n _ => (Decimal.isWord_repr n).chars
  uncommented := fun n _ => (Decimal.isWord_repr n).uncommented
  empty := by decide
  endOfData := by decide

namespace Cgats

variable {α : Type} [Numeral α] {number : α → Prop}

theorem isWord_text (faithful : Numeral.Faithful α number) {x : α} (h : number x) :
    IsWord (Numeral.text x) where
  nonempty := by
    intro none
    have reads := faithful.reads x h
    rw [String.toList_eq_nil_iff.mp none, faithful.empty] at reads
    cases reads
  chars := faithful.chars x h
  uncommented := faithful.uncommented x h

/-- A value as a word. -/
def Cell.token : Cell α → Token
  | .real x => ⟨Numeral.text x, false⟩
  | .text s => ⟨s, true⟩

theorem Cell.written_token (c : Cell α) : c.token.written = c.render := by
  cases c <;> rfl

/-- Whether a value reads back as it is written. -/
inductive Cell.Writable (number : α → Prop) : Cell α → Prop
  | real {x : α} (h : number x) : Writable number (.real x)
  | text {s : String} (h : IsQuotable s) : Writable number (.text s)

instance [DecidablePred number] (c : Cell α) : Decidable (c.Writable number) :=
  match c with
  | .real x => decidable_of_iff (number x) ⟨.real, fun | .real h => h⟩
  | .text s => decidable_of_iff (IsQuotable s) ⟨.text, fun | .text h => h⟩

theorem Cell.Writable.token (faithful : Numeral.Faithful α number) {c : Cell α}
    (h : c.Writable number) : c.token.Writable := by
  cases h with
  | real h => exact .word (isWord_text faithful h)
  | text h => exact .quote h

/-- Whether a table reads back as it is written. Without data sets a field of
texts would be taken for a field of numbers. -/
structure Table.Writable (number : α → Prop) (t : Table α) : Prop where
  kind : IsWord t.kind
  keywordNames : ∀ k ∈ t.keywords, IsWord k.1 ∧ k.1 ∉ reservedWords
  keywordValues : ∀ k ∈ t.keywords, IsQuotable k.2
  fieldNames : ∀ f ∈ t.fields, IsWord f.name ∧ f.name ≠ endFormatWord
  someField : t.fields ≠ #[]
  someSet : t.rows ≠ #[] ∨ ∀ f ∈ t.fields, f.type = .real
  cells : ∀ row ∈ t.rows, ∀ c ∈ row, c.Writable number
  fieldCount : t.fields.size < Decimal.countBound
  setCount : t.rows.size < Decimal.countBound

instance [DecidablePred number] (t : Table α) : Decidable (t.Writable number) :=
  decidable_of_iff (IsWord t.kind ∧ (∀ k ∈ t.keywords, IsWord k.1 ∧ k.1 ∉ reservedWords) ∧
    (∀ k ∈ t.keywords, IsQuotable k.2) ∧
    (∀ f ∈ t.fields, IsWord f.name ∧ f.name ≠ endFormatWord) ∧ t.fields ≠ #[] ∧
    (t.rows ≠ #[] ∨ ∀ f ∈ t.fields, f.type = .real) ∧
    (∀ row ∈ t.rows, ∀ c ∈ row, c.Writable number) ∧
    t.fields.size < Decimal.countBound ∧ t.rows.size < Decimal.countBound)
    ⟨fun ⟨h₁, h₂, h₃, h₄, h₅, h₆, h₇, h₈, h₉⟩ => ⟨h₁, h₂, h₃, h₄, h₅, h₆, h₇, h₈, h₉⟩,
      fun ⟨h₁, h₂, h₃, h₄, h₅, h₆, h₇, h₈, h₉⟩ => ⟨h₁, h₂, h₃, h₄, h₅, h₆, h₇, h₈, h₉⟩⟩

/-! The words of every line. -/

/-- A line of one word without quotes. -/
def bareLine (s : String) : List Token := [⟨s, false⟩]

/-- The words of a line that states a count. -/
def countTokens (word : String) (n : Nat) : List Token := [⟨word, false⟩, ⟨n.repr, false⟩]

/-- The words of the lines of a keyword. -/
def keywordTokens (name value : String) : List (List Token) :=
  let line := [⟨name, false⟩, ⟨value, true⟩]
  if standardKeywords.contains name then [line]
  else [[⟨keywordWord, false⟩, ⟨name, true⟩], line]

/-- The words of the lines of a table, but for the last. -/
def Table.bodyLines (t : Table α) : List (List Token) :=
  [bareLine t.kind, []]
    ++ t.keywords.flatMap (fun (name, value) => keywordTokens name value)
    ++ [[], countTokens fieldCountWord t.fields.size, bareLine beginFormatWord,
        t.fields.toList.map fun f => ⟨f.name, false⟩, bareLine endFormatWord, [],
        countTokens setCountWord t.rows.size, bareLine beginDataWord]
    ++ t.rows.toList.map (fun row => row.toList.map Cell.token)

/-- The words of the lines of a table. -/
def Table.tokenLines (t : Table α) : List (List Token) := t.bodyLines ++ [bareLine endDataWord]

theorem lineChars_pair (t u : Token) :
    lineChars [t, u] = t.written.toList ++ ' ' :: u.written.toList := rfl

theorem toList_keywordLines (name value : String) :
    (keywordLines name value).map String.toList = (keywordTokens name value).map lineChars := by
  have line (s t : String) : (s ++ " " ++ quoted t).toList =
      lineChars [⟨s, false⟩, ⟨t, true⟩] := by
    rw [lineChars_pair]
    simp [Token.written]
  unfold keywordLines keywordTokens
  split <;> simp only [List.map_cons, List.map_nil, line]

theorem toList_countLine (word : String) (n : Nat) :
    (word ++ " " ++ n.repr).toList = lineChars (countTokens word n) := by
  rw [countTokens, lineChars_pair]
  simp [Token.written]

theorem Table.toList_lines (t : Table α) :
    t.lines.map String.toList = t.tokenLines.map lineChars := by
  have names : (String.intercalate " " (t.fields.toList.map Field.name)).toList =
      lineChars (t.fields.toList.map fun f => ⟨f.name, false⟩) := by
    rw [← toList_intercalate_written, List.map_map]
    rfl
  have cells (row : Array (Cell α)) : (String.intercalate " " (row.toList.map Cell.render)).toList =
      lineChars (row.toList.map Cell.token) := by
    rw [← toList_intercalate_written, List.map_map]
    congr 2
    exact List.map_congr_left fun c _ => c.written_token.symm
  have keywords : (t.keywords.flatMap fun (name, value) => keywordLines name value).map
        String.toList =
      (t.keywords.flatMap fun (name, value) => keywordTokens name value).map lineChars := by
    rw [List.map_flatMap, List.map_flatMap]
    congr 1
    funext k
    exact toList_keywordLines k.1 k.2
  simp only [Table.lines, Table.tokenLines, Table.bodyLines, List.map_append, keywords,
    List.map_cons, List.map_nil, List.map_map, Function.comp_def, toList_countLine, names, cells]
  rfl

/-- The words of the lines of a file. -/
def fileTokenLines : File α → List (List Token)
  | [] => []
  | [t] => t.tokenLines
  | t :: ts => t.tokenLines ++ [] :: fileTokenLines ts

theorem toList_fileLines (f : File α) :
    (fileLines f).map String.toList = (fileTokenLines f).map lineChars := by
  induction f with
  | nil => rfl
  | cons t ts ih =>
      cases ts with
      | nil => exact t.toList_lines
      | cons u ts =>
          rw [fileLines, fileTokenLines, List.map_append, List.map_append, List.map_cons,
            List.map_cons, t.toList_lines, ih]
          · rfl
          · exact List.cons_ne_nil u ts
          · exact List.cons_ne_nil u ts

theorem toList_render (f : File α) : (render f).toList = linesChars (fileTokenLines f) := by
  rw [render, linesChars, ← toList_fileLines, String.toList_join, List.flatMap_map,
    List.flatMap_map]
  simp

/-- A line that is written with line feeds in it is read as several. -/
theorem textLines_render (f : File α) :
    textLines (render f) = (fileLines f).flatMap fun line => charLines (line.toList ++ ['\n']) := by
  have lines := charLines_flatMap ((fileLines f).map String.toList) []
  rw [List.append_nil, charLines_nil, List.append_nil] at lines
  rw [textLines_eq, toList_render, linesChars, ← toList_fileLines, lines, List.flatMap_map]

theorem textLines_render_of_isLine {f : File α} (h : ∀ line ∈ fileLines f, IsLine line.toList) :
    textLines (render f) = (fileLines f).map String.toList := by
  rw [textLines_render, List.map_eq_flatMap]
  exact List.flatMap_congr fun line mem => (h line mem).charLines

end Cgats

end InkModel
