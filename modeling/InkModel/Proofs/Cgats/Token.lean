import InkModel.Cgats.Token
import InkModel.Cgats.Writer

/-! # Lines of words

A line that is written word by word is split into the same words, and a text
that is written line by line into the same lines. Words without quotes must not
look like anything else; between quotes everything but a quote and the end of
the line may stand.
-/

namespace InkModel.Cgats

/-- A text that can stand as a word without quotes. -/
structure IsWord (s : String) : Prop where
  nonempty : s.toList ≠ []
  chars : ∀ c ∈ s.toList, isWordChar c = true
  uncommented : s.toList.head? ≠ some commentChar

/-- A text that can stand between quotes. -/
structure IsQuotable (s : String) : Prop where
  closed : quoteChar ∉ s.toList
  oneLine : '\n' ∉ s.toList

instance (s : String) : Decidable (IsWord s) :=
  decidable_of_iff (s.toList ≠ [] ∧ s.toList.all isWordChar = true ∧
    s.toList.head? ≠ some commentChar)
    ⟨fun h => ⟨h.1, List.all_eq_true.mp h.2.1, h.2.2⟩,
      fun h => ⟨h.nonempty, List.all_eq_true.mpr h.chars, h.uncommented⟩⟩

instance (s : String) : Decidable (IsQuotable s) :=
  decidable_of_iff (quoteChar ∉ s.toList ∧ '\n' ∉ s.toList)
    ⟨fun h => ⟨h.1, h.2⟩, fun h => ⟨h.closed, h.oneLine⟩⟩

namespace Token

/-- A word as it is written. -/
def written (t : Token) : String := if t.quoted then Cgats.quoted t.text else t.text

/-- Whether a word reads back as it is written. -/
inductive Writable : Token → Prop
  | word {s : String} (h : IsWord s) : Writable ⟨s, false⟩
  | quote {s : String} (h : IsQuotable s) : Writable ⟨s, true⟩

end Token

theorem takeWhile_append_stop {α : Type} {p : α → Bool} {xs rest : List α}
    (h : ∀ x ∈ xs, p x = true) (stop : ∀ x, rest.head? = some x → p x = false) :
    (xs ++ rest).takeWhile p = xs ∧ (xs ++ rest).dropWhile p = rest := by
  rw [List.takeWhile_append_of_pos h, List.dropWhile_append_of_pos h]
  cases rest with
  | nil => simp
  | cons x rest => simp [stop x rfl]

/-! Characters. -/

theorem isWordChar_iff {c : Char} :
    isWordChar c = true ↔ Text.isBlank c = false ∧ c ≠ quoteChar := by
  simp [isWordChar]

theorem isBlank_of_lineEnd : Text.isBlank '\n' = true ∧ Text.isBlank '\r' = true := by decide

theorem IsWord.not_mem {s : String} (h : IsWord s) {c : Char} (blank : Text.isBlank c = true) :
    c ∉ s.toList := by
  intro mem
  have := (isWordChar_iff.mp (h.chars c mem)).1
  simp [blank] at this

theorem IsWord.isQuotable {s : String} (h : IsWord s) : IsQuotable s where
  closed := fun mem => (isWordChar_iff.mp (h.chars _ mem)).2 rfl
  oneLine := h.not_mem isBlank_of_lineEnd.1

theorem IsWord.append {s t : String} (hs : IsWord s) (ht : ∀ c ∈ t.toList, isWordChar c = true) :
    IsWord (s ++ t) := by
  obtain ⟨c, cs, chars⟩ := List.exists_cons_of_ne_nil hs.nonempty
  have first := hs.uncommented
  refine ⟨by simp [chars], fun c' mem => ?_, ?_⟩
  · rw [String.toList_append] at mem
    exact (List.mem_append.mp mem).elim (hs.chars c') (ht c')
  · simpa [chars] using first

theorem IsQuotable.append {s t : String} (hs : IsQuotable s) (ht : IsQuotable t) :
    IsQuotable (s ++ t) := by
  constructor
  · rw [String.toList_append, List.mem_append, not_or]
    exact ⟨hs.closed, ht.closed⟩
  · rw [String.toList_append, List.mem_append, not_or]
    exact ⟨hs.oneLine, ht.oneLine⟩

/-! The words of a line. -/

theorem tokenize_nil : tokenize [] = some [] := by rw [tokenize]

theorem tokenize_blank {c : Char} (blank : Text.isBlank c = true) (rest : List Char) :
    tokenize (c :: rest) = tokenize rest := by
  rw [tokenize, if_pos blank]

theorem tokenize_word {s : String} (h : IsWord s) {rest : List Char}
    (stop : ∀ c, rest.head? = some c → isWordChar c = false) :
    tokenize (s.toList ++ rest) = (tokenize rest).map (⟨s, false⟩ :: ·) := by
  obtain ⟨c, cs, hs⟩ := List.exists_cons_of_ne_nil h.nonempty
  have first := isWordChar_iff.mp (h.chars c (by simp [hs]))
  have comment : c ≠ commentChar := by
    intro same
    exact h.uncommented (by simp [hs, same])
  have others : ∀ x ∈ cs, isWordChar x = true := fun x hx => h.chars x (by simp [hs, hx])
  obtain ⟨taken, dropped⟩ := takeWhile_append_stop others stop
  have text : String.ofList (c :: cs) = s := by rw [← hs, String.ofList_toList]
  rw [hs, List.cons_append, tokenize, if_neg (by simp [first.1]), if_neg comment,
    if_neg first.2]
  dsimp only
  rw [taken, dropped, text]

theorem tokenize_quoted {s : String} (h : IsQuotable s) (rest : List Char) :
    tokenize (quoteChar :: s.toList ++ quoteChar :: rest) =
      (tokenize rest).map (⟨s, true⟩ :: ·) := by
  have inside : ∀ c ∈ s.toList, (c != quoteChar) = true := by
    intro c mem
    have : c ≠ quoteChar := by
      rintro rfl
      exact h.closed mem
    simpa using this
  have stop : ∀ c, (quoteChar :: rest).head? = some c → (c != quoteChar) = false := by
    intro c hc
    have : quoteChar = c := by simpa using hc
    simp [this]
  obtain ⟨taken, dropped⟩ := takeWhile_append_stop inside stop
  rw [List.cons_append, tokenize, if_neg (by decide), if_neg (by decide), if_pos rfl, taken]
  split
  · simp [dropped] at *
  · rename_i found
    rw [dropped] at found
    obtain ⟨-, rfl⟩ := List.cons.inj found
    dsimp only
    rw [String.ofList_toList]

/-- The characters of a line of words, with a blank between neighbours. -/
def lineChars : List Token → List Char
  | [] => []
  | [t] => t.written.toList
  | t :: ts => t.written.toList ++ ' ' :: lineChars ts

theorem lineChars_cons_cons (t u : Token) (ts : List Token) :
    lineChars (t :: u :: ts) = t.written.toList ++ ' ' :: lineChars (u :: ts) := by
  rw [lineChars]
  exact List.cons_ne_nil u ts

theorem toList_intercalate_written (ts : List Token) :
    (String.intercalate " " (ts.map Token.written)).toList = lineChars ts := by
  induction ts with
  | nil => rfl
  | cons t ts ih =>
      cases ts with
      | nil => simp [lineChars]
      | cons u ts =>
          rw [lineChars_cons_cons, ← ih]
          simp [String.toList_intercalate]

theorem toList_written_quoted (s : String) :
    (Token.written ⟨s, true⟩).toList = quoteChar :: s.toList ++ [quoteChar] := by
  simp [Token.written, quoted, quoteChar]

theorem tokenize_written {t : Token} (h : t.Writable) {rest : List Char}
    (stop : ∀ c, rest.head? = some c → isWordChar c = false) :
    tokenize (t.written.toList ++ rest) = (tokenize rest).map (t :: ·) := by
  cases h with
  | word h => exact tokenize_word h stop
  | quote h =>
      rw [toList_written_quoted, List.append_assoc, List.singleton_append]
      exact tokenize_quoted h rest

theorem tokenize_lineChars {ts : List Token} (h : ∀ t ∈ ts, t.Writable) :
    tokenize (lineChars ts) = some ts := by
  induction ts with
  | nil => exact tokenize_nil
  | cons t ts ih =>
      have first := h t List.mem_cons_self
      have others := ih fun u hu => h u (List.mem_cons_of_mem t hu)
      cases ts with
      | nil =>
          have alone : tokenize (t.written.toList ++ []) = (tokenize []).map (t :: ·) :=
            tokenize_written first (by simp)
          rw [List.append_nil, tokenize_nil] at alone
          exact alone
      | cons u ts =>
          rw [lineChars_cons_cons, tokenize_written first (by intro c hc; cases hc; decide),
            tokenize_blank (by decide), others, Option.map_some]

theorem mapM_tokenize_lineChars {lines : List (List Token)}
    (h : ∀ ts ∈ lines, ∀ t ∈ ts, t.Writable) :
    (lines.map lineChars).mapM tokenize = some lines := by
  induction lines with
  | nil => rfl
  | cons ts lines ih =>
      obtain ⟨first, others⟩ := List.forall_mem_cons.mp h
      rw [List.map_cons, List.mapM_cons, tokenize_lineChars first, ih others]
      rfl

/-! The lines of a text. -/

theorem dropReturn_of_last {line : List Char} (h : line.getLast? ≠ some '\r') :
    dropReturn line = line := by
  unfold dropReturn
  split
  · rename_i rest reversed
    have : line.getLast? = some '\r' := by
      rw [← List.head?_reverse, reversed]
      rfl
    exact absurd this h
  · rfl

theorem linesFrom_line (acc : Array (List Char)) {line : List Char} (h : '\n' ∉ line)
    (rest : List Char) :
    linesFrom acc (line ++ '\n' :: rest) = linesFrom (acc.push (dropReturn line)) rest := by
  have inside : ∀ c ∈ line, (c != '\n') = true := by
    intro c mem
    have : c ≠ '\n' := by
      rintro rfl
      exact h mem
    simpa using this
  have stop : ∀ c, ('\n' :: rest).head? = some c → (c != '\n') = false := by
    intro c hc
    have : '\n' = c := by simpa using hc
    simp [← this]
  obtain ⟨taken, dropped⟩ := takeWhile_append_stop inside stop
  rw [linesFrom]
  split
  · rename_i found
    rw [dropped] at found
    exact absurd found (List.cons_ne_nil _ _)
  · rename_i found
    rw [dropped] at found
    obtain ⟨-, rfl⟩ := List.cons.inj found
    rw [taken]

/-- The lines of some characters. -/
def charLines (cs : List Char) : List (List Char) := (linesFrom #[] cs).toList

theorem textLines_eq (s : String) : textLines s = charLines s.toList := rfl

theorem linesFrom_tail (acc : Array (List Char)) {tail : List Char} (h : '\n' ∉ tail) :
    linesFrom acc tail = if tail.isEmpty then acc else acc.push tail := by
  have inside : ∀ c ∈ tail, (c != '\n') = true := by
    intro c mem
    have : c ≠ '\n' := by
      rintro rfl
      exact h mem
    simpa using this
  obtain ⟨-, dropped⟩ : (tail ++ []).takeWhile (· != '\n') = tail ∧
      (tail ++ []).dropWhile (· != '\n') = [] := takeWhile_append_stop inside (by simp)
  rw [linesFrom]
  split
  · rfl
  · rename_i found
    rw [← List.append_nil tail, dropped] at found
    cases found

theorem charLines_tail {tail : List Char} (h : '\n' ∉ tail) :
    charLines tail = if tail = [] then [] else [tail] := by
  rw [charLines, linesFrom_tail #[] h]
  cases tail <;> simp

theorem charLines_nil : charLines [] = [] := by
  rw [charLines_tail List.not_mem_nil, if_pos rfl]

/-- Characters form a line that ends, and others, or a line that does not. -/
theorem exists_line (cs : List Char) :
    '\n' ∉ cs ∨ ∃ line rest, '\n' ∉ line ∧ cs = line ++ '\n' :: rest := by
  by_cases ends : '\n' ∈ cs
  · obtain ⟨line, rest, rfl, first⟩ := List.eq_append_cons_of_mem ends
    exact .inr ⟨line, rest, first, rfl⟩
  · exact .inl ends

theorem linesFrom_toList (acc : Array (List Char)) (cs : List Char) :
    (linesFrom acc cs).toList = acc.toList ++ charLines cs := by
  induction size : cs.length using Nat.strongRecOn generalizing acc cs with
  | _ size' ih =>
    rcases exists_line cs with open_ | ⟨line, rest, ends, rfl⟩
    · rw [charLines, linesFrom_tail acc open_, linesFrom_tail #[] open_]
      cases cs with
      | nil => simp
      | cons c cs => simp
    · have shorter : rest.length < size' := by
        simp only [← size, List.length_append, List.length_cons]
        omega
      rw [charLines, linesFrom_line acc ends, linesFrom_line #[] ends,
        ih _ shorter _ rest rfl, ih _ shorter _ rest rfl]
      simp

theorem charLines_line {line : List Char} (h : '\n' ∉ line) (rest : List Char) :
    charLines (line ++ '\n' :: rest) = dropReturn line :: charLines rest := by
  rw [charLines, linesFrom_line #[] h, linesFrom_toList]
  rfl

/-- A line feed ends a line whatever comes before it. -/
theorem charLines_lineEnd (cs rest : List Char) :
    charLines (cs ++ '\n' :: rest) = charLines (cs ++ ['\n']) ++ charLines rest := by
  induction size : cs.length using Nat.strongRecOn generalizing cs with
  | _ size' ih =>
    rcases exists_line cs with oneLine | ⟨line, others, ends, rfl⟩
    · rw [charLines_line oneLine, charLines_line oneLine, charLines_nil]
      rfl
    · have shorter : others.length < size' := by
        simp only [← size, List.length_append, List.length_cons]
        omega
      rw [List.append_assoc, List.append_assoc, List.cons_append, List.cons_append,
        charLines_line ends, charLines_line ends, ih _ shorter _ rfl, List.cons_append]

/-- Whether a line reads back as it is written. -/
structure IsLine (line : List Char) : Prop where
  oneLine : '\n' ∉ line
  noReturn : line.getLast? ≠ some '\r'

instance (line : List Char) : Decidable (IsLine line) :=
  decidable_of_iff ('\n' ∉ line ∧ line.getLast? ≠ some '\r')
    ⟨fun h => ⟨h.1, h.2⟩, fun h => ⟨h.oneLine, h.noReturn⟩⟩

theorem IsLine.charLines {line : List Char} (h : IsLine line) :
    charLines (line ++ ['\n']) = [line] := by
  rw [charLines_line h.oneLine, dropReturn_of_last h.noReturn, charLines_nil]

theorem charLines_flatMap (texts : List (List Char)) (rest : List Char) :
    charLines (texts.flatMap (· ++ ['\n']) ++ rest) =
      texts.flatMap (fun text => charLines (text ++ ['\n'])) ++ charLines rest := by
  induction texts with
  | nil => rfl
  | cons text texts ih =>
      rw [List.flatMap_cons, List.flatMap_cons, List.append_assoc, List.append_assoc,
        List.singleton_append, charLines_lineEnd, ih, List.append_assoc]

theorem charLines_append {lines : List (List Char)} (h : ∀ line ∈ lines, IsLine line)
    (rest : List Char) :
    charLines (lines.flatMap (· ++ ['\n']) ++ rest) = lines ++ charLines rest := by
  rw [charLines_flatMap]
  congr 1
  induction lines with
  | nil => rfl
  | cons line lines ih =>
      obtain ⟨first, others⟩ := List.forall_mem_cons.mp h
      rw [List.flatMap_cons, first.charLines, ih others, List.singleton_append]

theorem isLine_written {t : Token} (h : t.Writable) : IsLine t.written.toList := by
  cases h with
  | word h =>
      refine ⟨h.not_mem isBlank_of_lineEnd.1, fun last => ?_⟩
      exact h.not_mem isBlank_of_lineEnd.2 (List.mem_of_getLast? last)
  | quote h =>
      rw [toList_written_quoted]
      constructor
      · simp [quoteChar, h.oneLine]
      · rw [List.getLast?_concat]
        decide

theorem isLine_lineChars {ts : List Token} (h : ∀ t ∈ ts, t.Writable) : IsLine (lineChars ts) := by
  induction ts with
  | nil => exact ⟨List.not_mem_nil, by simp [lineChars]⟩
  | cons t ts ih =>
      have first := isLine_written (h t List.mem_cons_self)
      cases ts with
      | nil => exact first
      | cons u ts =>
          have others := ih fun v hv => h v (List.mem_cons_of_mem t hv)
          rw [lineChars_cons_cons]
          constructor
          · simp [first.oneLine, others.oneLine]
          · rw [List.getLast?_append, List.getLast?_cons]
            cases last : (lineChars (u :: ts)).getLast? with
            | none => simp
            | some c =>
                have := others.noReturn
                simpa [last] using this

/-- The characters of lines of words. -/
def linesChars (lines : List (List Token)) : List Char :=
  (lines.map lineChars).flatMap (· ++ ['\n'])

theorem linesChars_append (lines lines' : List (List Token)) :
    linesChars (lines ++ lines') = linesChars lines ++ linesChars lines' := by
  simp [linesChars]

theorem linesChars_cons (ts : List Token) (lines : List (List Token)) :
    linesChars (ts :: lines) = lineChars ts ++ '\n' :: linesChars lines := by
  simp [linesChars]

theorem charLines_linesChars_append {lines : List (List Token)}
    (writable : ∀ ts ∈ lines, ∀ t ∈ ts, t.Writable) (rest : List Char) :
    charLines (linesChars lines ++ rest) = lines.map lineChars ++ charLines rest := by
  refine charLines_append (fun line mem => ?_) rest
  obtain ⟨ts, hts, rfl⟩ := List.mem_map.mp mem
  exact isLine_lineChars (writable ts hts)

theorem charLines_linesChars {lines : List (List Token)}
    (writable : ∀ ts ∈ lines, ∀ t ∈ ts, t.Writable) :
    charLines (linesChars lines) = lines.map lineChars := by
  have whole := charLines_linesChars_append writable []
  rwa [List.append_nil, charLines_nil, List.append_nil] at whole

end InkModel.Cgats
