import InkModel.Proofs.Cgats.RoundTrip

/-! # Truncated files

A file that is cut off, wherever it is, reads as its first tables or not at all. The
counts of data sets tell a table that is cut from one that is whole.
-/

namespace InkModel.Cgats

variable {α : Type} [Numeral α] {number : α → Prop}

/-! Runs that finish no table. -/

/-- To come back to between two tables a run must finish one. -/
theorem Run.idle {phase last : Phase} {lines : List (List Token)} {done : List (Table α)}
    (h : Run phase lines last done) (ends : last = .between) (none : done = []) :
    phase = .between ∧ lines = [] := by
  induction h with
  | nil => exact ⟨ends, rfl⟩
  | cons step run ih =>
      obtain ⟨nothing, none⟩ := List.append_eq_nil_iff.mp none
      obtain ⟨rfl, -⟩ := ih ends none
      cases step with
      | header step => cases step
      | finish => cases nothing

/-- Within the data sets a run only adds data sets. -/
theorem Run.data {d d' : Draft} {lines : List (List Token)}
    (h : Run (α := α) (.data d) lines (.data d') []) :
    d' = { d with rows := d.rows ++ (lines.map List.toArray).toArray } := by
  induction lines generalizing d with
  | nil =>
      obtain ⟨same, -⟩ := Run.nil_iff.mp h
      cases same
      simp
  | cons ts lines ih =>
      cases ts with
      | nil => exact absurd rfl (h.nonblank [] List.mem_cons_self)
      | cons head rest =>
          obtain ⟨mid, found, others, step, run, none⟩ := Run.cons_iff.mp h
          obtain ⟨nothing, rfl⟩ := List.append_eq_nil_iff.mp none.symm
          cases step with
          | row inside size => simp [ih run]
          | finish => cases nothing

/-! Where lines can be cut. -/

theorem prefix_append_iff {γ : Type} {xs ys zs : List γ} :
    xs <+: ys ++ zs ↔ xs <+: ys ∨ ∃ rest, xs = ys ++ rest ∧ rest <+: zs := by
  constructor
  · rintro ⟨cutOff, all⟩
    rcases List.append_eq_append_iff.mp all with ⟨behind, rfl, -⟩ | ⟨rest, rfl, rfl⟩
    · exact .inl (List.prefix_append xs behind)
    · exact .inr ⟨rest, rfl, List.prefix_append rest cutOff⟩
  · rintro (within | ⟨rest, rfl, beyond⟩)
    · exact within.trans (List.prefix_append ys zs)
    · exact (List.prefix_append_right_inj ys).mpr beyond

/-- Lines are cut behind the last of them or within one. -/
theorem cut_lines {lines : List (List Token)} {cs : List Char} (cut : cs <+: linesChars lines) :
    cs = linesChars lines ∨ ∃ before ts after tail, lines = before ++ ts :: after ∧
      cs = linesChars before ++ tail ∧ tail <+: lineChars ts := by
  induction lines generalizing cs with
  | nil => exact .inl (List.prefix_nil.mp cut)
  | cons ts lines ih =>
      rw [linesChars_cons] at cut ⊢
      rcases prefix_append_iff.mp cut with within | ⟨rest, rfl, beyond⟩
      · exact .inr ⟨[], ts, lines, cs, rfl, rfl, within⟩
      · rcases List.prefix_cons_iff.mp beyond with rfl | ⟨rest, rfl, later⟩
        · exact .inr ⟨[], ts, lines, _, rfl, rfl, by simp⟩
        · rcases ih later with rfl | ⟨before, ts', after, tail, rfl, rfl, within⟩
          · exact .inl rfl
          · refine .inr ⟨ts :: before, ts', after, tail, rfl, ?_, within⟩
            rw [linesChars_cons, List.append_assoc, List.cons_append]

/-- A word that is cut is a word. -/
theorem tokenize_cut {s : String} (h : IsWord s) {tail : List Char} (cut : tail <+: s.toList)
    (nonempty : tail ≠ []) : tokenize tail = some [⟨String.ofList tail, false⟩] := by
  have chars : (String.ofList tail).toList = tail := String.toList_ofList
  have word : IsWord (String.ofList tail) := by
    refine ⟨by rwa [chars], fun c mem => ?_, ?_⟩
    · rw [chars] at mem
      exact h.chars c (cut.subset mem)
    · obtain ⟨rest, all⟩ := cut
      obtain ⟨c, cs, rfl⟩ := List.exists_cons_of_ne_nil nonempty
      have first := h.uncommented
      rw [← all] at first
      rw [chars]
      simpa using first
  have alone : tokenize ((String.ofList tail).toList ++ []) =
      (tokenize []).map (⟨String.ofList tail, false⟩ :: ·) := tokenize_word word (by simp)
  rwa [List.append_nil, chars, tokenize_nil] at alone

/-- Whether lines of characters lead from between two tables to between two and finish
these tables. -/
def Accepts (texts : List (List Char)) (g : List (Table α)) : Prop :=
  ∃ lines, texts.mapM tokenize = some lines ∧
    Run .between (lines.filter (· ≠ [])) .between g

theorem accepts_append_iff {lines : List (List Token)}
    (writable : ∀ ts ∈ lines, ∀ t ∈ ts, t.Writable) {texts : List (List Char)}
    {g : List (Table α)} : Accepts (lines.map lineChars ++ texts) g ↔
      ∃ mid before rest after, Run .between (lines.filter (· ≠ [])) mid before ∧
        texts.mapM tokenize = some rest ∧ Run mid (rest.filter (· ≠ [])) .between after ∧
        g = before ++ after := by
  have tokens : (lines.map lineChars ++ texts).mapM tokenize =
      (texts.mapM tokenize).map (lines ++ ·) := by
    rw [List.mapM_append, mapM_tokenize_lineChars writable]
    cases texts.mapM tokenize <;> rfl
  unfold Accepts
  rw [tokens]
  constructor
  · rintro ⟨_, all, run⟩
    obtain ⟨rest, read, rfl⟩ := Option.map_eq_some_iff.mp all
    rw [List.filter_append] at run
    obtain ⟨mid, before, after, first, second, rfl⟩ := run.of_append
    exact ⟨mid, before, rest, after, first, read, second, rfl⟩
  · rintro ⟨mid, before, rest, after, first, read, second, rfl⟩
    refine ⟨lines ++ rest, by rw [read]; rfl, ?_⟩
    rw [List.filter_append]
    exact first.append second

/-- The words of a line that is cut, if it has any. -/
theorem spoken_tail {tail : List Char} {rest : List (List Token)}
    (read : (if tail = [] then [] else [tail]).mapM tokenize = some rest) :
    (rest.filter (· ≠ []) = [] ∧ tokenize tail = some []) ∨
      ∃ head words, rest.filter (· ≠ []) = [head :: words] ∧
        tokenize tail = some (head :: words) := by
  split at read
  · rename_i none
    cases read
    exact .inl ⟨rfl, by rw [none, tokenize_nil]⟩
  · obtain ⟨ts, others, words, nothing, rfl⟩ := mapM_cons_eq_some_iff.mp read
    cases nothing
    cases ts with
    | nil => exact .inl ⟨rfl, words⟩
    | cons head rest => exact .inr ⟨head, rest, by simp, words⟩

/-- A table is finished with as many data sets as it states. -/
theorem Draft.rows_of_finish {d : Draft} {t : Table α} (h : d.finish = .ok t) {n : ℕ}
    (stated : d.setCount = some n) : d.rows.size = n := by
  unfold Draft.finish at h
  split_ifs at h with fields sets
  rw [stated, Option.any_some, decide_eq_true_eq, not_not] at sets
  exact sets.symm

/-- A step to between two tables finishes one. -/
theorem LineStep.finishes {phase : Phase} {head : Token} {rest : List Token}
    {found : Option (Table α)} (step : LineStep phase head rest .between found) :
    ∃ d t, phase = .data d ∧ found = some t ∧ head.isBare endDataWord = true ∧
      d.finish = .ok t := by
  cases step with
  | header step => cases step
  | finish ends finished => exact ⟨_, _, rfl, rfl, ends, finished⟩

/-- The line above the end of the data is not blank. -/
theorem Table.last_bodyLine {t : Table α} (wf : t.WellFormed) (named : t.fields ≠ #[]) :
    ∀ ts ∈ t.bodyLines.getLast?, ts ≠ [] := by
  intro ts last
  rw [Option.mem_def, Table.bodyLines, List.getLast?_append, List.getLast?_map] at last
  cases row : t.rows.toList.getLast? with
  | none =>
      rw [row, Option.map_none, Option.none_or, List.getLast?_append] at last
      cases last
      exact List.cons_ne_nil _ _
  | some row' =>
      rw [row, Option.map_some, Option.some_or] at last
      cases last
      rintro none
      have size := wf.row_size (Array.mem_toList_iff.mp (List.mem_of_getLast? row))
      have empty : row' = #[] := by simpa using none
      rw [empty] at size
      exact named (Array.eq_empty_of_size_eq_zero size.symm)

/-- Behind `before`, within the body of a table, no line finishes a table: data sets are
missing. -/
theorem Table.unfinished (faithful : Numeral.Faithful α number) {t : Table α}
    (wf : t.WellFormed) (writable : t.Writable number) {before after : List (List Token)}
    {line : List Token} (split : t.bodyLines = before ++ line :: after) {d : Draft}
    (run : Run (α := α) .between (before.filter (· ≠ [])) (.data d) []) {u : Table α} :
    d.finish ≠ .ok u := by
  intro finished
  have body := (t.reads_body faithful wf writable).run
  rw [split, List.filter_append] at body
  obtain ⟨mid, _, later, first, second, none⟩ := body.of_append
  obtain ⟨rfl, rfl⟩ := run.unique first
  obtain rfl : later = [] := none.symm
  have drafts := second.data
  have stated : d.setCount = some t.rows.size := congrArg Draft.setCount drafts.symm
  have rows := congrArg (fun d : Draft => d.rows.size) drafts
  simp only [Table.draft, Array.size_map, Array.size_append, List.size_toArray, List.length_map,
    d.rows_of_finish finished stated] at rows
  have blank : (line :: after).filter (· ≠ []) = [] := List.eq_nil_of_length_eq_zero (by omega)
  have last : t.bodyLines.getLast? = some (after.getLast?.getD line) := by
    rw [split, List.getLast?_append, List.getLast?_cons]
    rfl
  have inside : after.getLast?.getD line ∈ line :: after :=
    List.mem_of_getLast? List.getLast?_cons
  have spoken := t.last_bodyLine wf writable.someField _ last
  simpa [spoken] using List.filter_eq_nil_iff.mp blank _ inside

/-- Lines that are cut within a table, behind the lines `before`, are accepted only at the
start of the table and behind the word that ends it. -/
theorem Table.cut_accepts (faithful : Numeral.Faithful α number) {t : Table α}
    (wf : t.WellFormed) (writable : t.Writable number) {before after : List (List Token)}
    {line : List Token} {tail : List Char} (split : t.tokenLines = before ++ line :: after)
    (cut : tail <+: lineChars line) {g : List (Table α)}
    (accepts : Accepts (before.map lineChars ++ if tail = [] then [] else [tail]) g) :
    (before = [] ∧ tail = [] ∧ g = []) ∨ (after = [] ∧ tail = lineChars line ∧ g = [t]) := by
  have body := (t.reads_body faithful wf writable).run
  have words : ∀ ts ∈ before, ∀ t ∈ ts, t.Writable := fun ts mem =>
    (t.reads faithful wf writable).writable ts (split ▸ List.mem_append_left _ mem)
  obtain ⟨mid, done, rest, found, first, read, second, rfl⟩ := (accepts_append_iff words).mp accepts
  rcases List.eq_nil_or_concat after with rfl | ⟨init, last, rfl⟩
  · -- The line is the last of the table.
    obtain ⟨rfl, same⟩ := List.append_inj' split.symm rfl
    cases same
    obtain ⟨rfl, rfl⟩ := first.unique body
    refine .inr ⟨rfl, ?_⟩
    rcases spoken_tail read with ⟨none, -⟩ | ⟨head, words, one, spoken⟩
    · rw [none, Run.nil_iff] at second
      cases second.1
    · rw [one, Run.cons_iff] at second
      obtain ⟨after, found, others, step, run, rfl⟩ := second
      obtain ⟨rfl, rfl⟩ := Run.nil_iff.mp run
      obtain ⟨d, u, same, rfl, ends, finished⟩ := step.finishes
      cases same
      obtain rfl : t = u := Except.ok.inj ((finish_draft faithful wf writable).symm.trans finished)
      refine ⟨?_, rfl⟩
      have word : tail <+: endDataWord.toList := cut
      have nonempty : tail ≠ [] := by
        rintro rfl
        rw [tokenize_nil] at spoken
        cases spoken
      rw [tokenize_cut isWord_formatWords.2.2.2.2.2.2 word nonempty] at spoken
      cases spoken
      have text : String.ofList tail = endDataWord := by simpa [Token.isBare] using ends
      exact String.toList_ofList.symm.trans (congrArg String.toList text)
  · have rows : t.bodyLines = before ++ line :: init := by
      rw [Table.tokenLines, List.concat_eq_append, ← List.cons_append, ← List.append_assoc] at split
      exact (List.append_inj' split rfl).1
    have all := body
    rw [rows, List.filter_append] at all
    obtain ⟨mid', _, later, first', second', none⟩ := all.of_append
    obtain ⟨rfl, rfl⟩ := first.unique first'
    obtain ⟨rfl, rfl⟩ := List.append_eq_nil_iff.mp none.symm
    rcases spoken_tail read with ⟨blank, spoken⟩ | ⟨head, words, one, spoken⟩
    · rw [blank, Run.nil_iff] at second
      obtain ⟨rfl, rfl⟩ := second
      obtain ⟨-, nothing⟩ := first.idle rfl rfl
      cases before with
      | nil =>
          obtain rfl : bareLine t.kind = line := (List.cons.inj rows).1
          refine .inl ⟨rfl, ?_, rfl⟩
          by_contra nonempty
          rw [tokenize_cut writable.kind cut nonempty] at spoken
          cases spoken
      | cons ts before =>
          obtain rfl : bareLine t.kind = ts := (List.cons.inj rows).1
          simp [bareLine] at nothing
    · rw [one, Run.cons_iff] at second
      obtain ⟨after, found, others, step, run, rfl⟩ := second
      obtain ⟨rfl, rfl⟩ := Run.nil_iff.mp run
      obtain ⟨d, u, rfl, rfl, ends, finished⟩ := step.finishes
      exact absurd finished (t.unfinished faithful wf writable rows first)

/-! Cut files. -/

/-- Whether characters are those of some tables to the word that ends the data of the last,
with its line feed or not, and with that of the blank line below or not. -/
def CutBehind (f : File α) (cs : List Char) : Prop :=
  ∃ body feeds, (render f).toList = body ++ (endDataWord.toList ++ ['\n']) ∧
    cs = body ++ (endDataWord.toList ++ feeds) ∧ feeds <+: ['\n', '\n']

theorem toList_render_singleton (t : Table α) :
    (render [t]).toList = linesChars t.bodyLines ++ (endDataWord.toList ++ ['\n']) := by
  rw [toList_render, fileTokenLines, Table.tokenLines, linesChars_append, linesChars_cons]
  rfl

theorem toList_render_cons (t : Table α) {ts : List (Table α)} (some : ts ≠ []) :
    (render (t :: ts)).toList = linesChars (t.tokenLines ++ [[]]) ++ (render ts).toList := by
  rw [toList_render, toList_render, fileTokenLines, ← linesChars_append, List.append_assoc,
    List.singleton_append]
  exact some

theorem cutBehind_singleton (t : Table α) {feeds : List Char} (short : feeds <+: ['\n', '\n']) :
    CutBehind [t] (linesChars t.bodyLines ++ (endDataWord.toList ++ feeds)) :=
  ⟨_, feeds, toList_render_singleton t, rfl, short⟩

theorem CutBehind.cons {f : File α} {cs : List Char} (h : CutBehind f cs) (some : f ≠ [])
    (t : Table α) : CutBehind (t :: f) (linesChars (t.tokenLines ++ [[]]) ++ cs) := by
  obtain ⟨body, feeds, text, rfl, short⟩ := h
  refine ⟨linesChars (t.tokenLines ++ [[]]) ++ body, feeds, ?_, ?_, short⟩
  · rw [toList_render_cons t some, text, List.append_assoc]
  · rw [List.append_assoc]

/-- Characters that are cut within a table are accepted at its start and behind the word
that ends it. -/
theorem Table.cut_chars (faithful : Numeral.Faithful α number) {t : Table α}
    (wf : t.WellFormed) (writable : t.Writable number) {cs : List Char}
    (cut : cs <+: linesChars t.tokenLines) {g : List (Table α)}
    (accepts : Accepts (charLines cs) g) :
    (g = [] ∧ cs = []) ∨ (g = [t] ∧ CutBehind [t] cs) := by
  have reads := t.reads faithful wf writable
  rcases cut_lines cut with rfl | ⟨before, ts, after, tail, lines, rfl, within⟩
  · rw [charLines_linesChars reads.writable, ← List.append_nil (t.tokenLines.map lineChars),
      accepts_append_iff reads.writable] at accepts
    obtain ⟨mid, done, rest, found, first, read, second, rfl⟩ := accepts
    cases read
    obtain ⟨rfl, rfl⟩ := first.unique reads.run
    obtain ⟨-, rfl⟩ := Run.nil_iff.mp second
    refine .inr ⟨rfl, ?_⟩
    rw [← fileTokenLines, ← toList_render, toList_render_singleton]
    exact cutBehind_singleton t (List.prefix_append _ _)
  · have words : ∀ ts ∈ before, ∀ t ∈ ts, t.Writable := fun ts mem =>
      reads.writable ts (lines ▸ List.mem_append_left _ mem)
    have open_ : '\n' ∉ tail := by
      intro mem
      have line := isLine_lineChars (reads.writable ts (by simp [lines]))
      exact line.oneLine (within.subset mem)
    rw [charLines_linesChars_append words, charLines_tail open_] at accepts
    rcases t.cut_accepts faithful wf writable lines within accepts with
      ⟨rfl, rfl, rfl⟩ | ⟨rfl, rfl, rfl⟩
    · exact .inl ⟨rfl, rfl⟩
    · obtain ⟨rfl, same⟩ := List.append_inj' lines rfl
      cases same
      refine .inr ⟨rfl, ?_⟩
      have ended := cutBehind_singleton t List.nil_prefix
      rwa [List.append_nil] at ended

/-- Characters that are cut within a file are accepted as its first tables. -/
theorem cut_accepts (faithful : Numeral.Faithful α number) {f : File α}
    (wf : ∀ t ∈ f, t.WellFormed) (writable : ∀ t ∈ f, t.Writable number) {cs : List Char}
    (cut : cs <+: (render f).toList) {g : List (Table α)} (accepts : Accepts (charLines cs) g) :
    (g = [] ∧ cs = []) ∨ ∃ k, 0 < k ∧ k ≤ f.length ∧ g = f.take k ∧ CutBehind g cs := by
  induction f generalizing cs g with
  | nil =>
      rw [toList_render] at cut
      obtain rfl : cs = [] := List.prefix_nil.mp cut
      obtain ⟨lines, read, run⟩ := accepts
      rw [charLines_nil] at read
      cases read
      obtain ⟨-, rfl⟩ := Run.nil_iff.mp run
      exact .inl ⟨rfl, rfl⟩
  | cons t ts ih =>
      obtain ⟨wfFirst, wfOthers⟩ := List.forall_mem_cons.mp wf
      obtain ⟨writableFirst, writableOthers⟩ := List.forall_mem_cons.mp writable
      have within (short : cs <+: linesChars t.tokenLines) : (g = [] ∧ cs = []) ∨
          ∃ k, 0 < k ∧ k ≤ (t :: ts).length ∧ g = (t :: ts).take k ∧ CutBehind g cs := by
        rcases t.cut_chars faithful wfFirst writableFirst short accepts with none | ⟨rfl, behind⟩
        · exact .inl none
        · exact .inr ⟨1, Nat.one_pos, by simp, by simp, behind⟩
      by_cases some : ts = []
      · rw [some, toList_render, fileTokenLines] at cut
        exact within cut
      · rw [toList_render_cons t some, linesChars_append, List.append_assoc] at cut
        rcases prefix_append_iff.mp cut with short | ⟨rest, rfl, beyond⟩
        · exact within short
        · rcases List.prefix_cons_iff.mp beyond with rfl | ⟨rest, rfl, later⟩
          · exact within (by simp)
          · -- The first table is whole, and so is the blank line behind it.
            have first := (t.reads faithful wfFirst writableFirst).append (.blank .between)
            have chars : linesChars t.tokenLines ++ '\n' :: rest =
                linesChars (t.tokenLines ++ [[]]) ++ rest := by
              rw [linesChars_append, List.append_assoc]
              rfl
            rw [chars, charLines_linesChars_append first.writable,
              accepts_append_iff first.writable] at accepts
            obtain ⟨mid, done, lines, found, run, read, second, rfl⟩ := accepts
            obtain ⟨rfl, rfl⟩ := run.unique first.run
            rcases ih wfOthers writableOthers later ⟨lines, read, second⟩ with
              ⟨rfl, rfl⟩ | ⟨k, pos, short, rfl, behind⟩
            · refine .inr ⟨1, Nat.one_pos, by simp, by simp, ?_⟩
              rw [← fileTokenLines, ← toList_render, toList_render_singleton, List.append_assoc,
                List.append_assoc]
              exact cutBehind_singleton t (List.prefix_refl _)
            · refine .inr ⟨k + 1, Nat.succ_pos k, Nat.succ_le_succ short, rfl, ?_⟩
              rw [chars]
              exact behind.cons (by simpa [some] using pos.ne') t

/-- The word that ends the data of the last table stands alone on the last line. -/
theorem exists_lines_end {f : File α} (some : f ≠ []) :
    ∃ init, fileTokenLines f = init ++ [bareLine endDataWord] := by
  induction f with
  | nil => exact absurd rfl some
  | cons t ts ih =>
      by_cases none : ts = []
      · exact ⟨t.bodyLines, by rw [none]; rfl⟩
      · obtain ⟨init, lines⟩ := ih none
        refine ⟨t.tokenLines ++ [] :: init, ?_⟩
        rw [fileTokenLines, lines, List.append_assoc, List.cons_append]
        exact none

theorem readText_of_cutBehind (faithful : Numeral.Faithful α number) {f : File α} (some : f ≠ [])
    (wf : ∀ t ∈ f, t.WellFormed) (writable : ∀ t ∈ f, t.Writable number) {p : String}
    (behind : CutBehind f p.toList) : readText p = .ok f := by
  obtain ⟨body, feeds, text, chars, short⟩ := behind
  have reads := file_reads faithful wf writable
  obtain ⟨init, lines⟩ := exists_lines_end some
  rw [toList_render, lines, linesChars_append] at text
  obtain rfl : linesChars init = body := List.append_cancel_right text
  have ended :
      linesChars init ++ (endDataWord.toList ++ ['\n']) = linesChars (fileTokenLines f) := by
    rw [lines, linesChars_append]
    rfl
  rcases List.prefix_cons_iff.mp short with rfl | ⟨rest, rfl, below⟩
  · refine readText_of_reads reads some ?_
    have words : ∀ ts ∈ init, ∀ t ∈ ts, t.Writable := fun ts mem =>
      reads.writable ts (lines ▸ List.mem_append_left _ mem)
    rw [chars, charLines_linesChars_append words, List.append_nil, charLines_tail (by decide),
      if_neg (by decide), lines, List.map_append]
    rfl
  · rcases List.prefix_cons_iff.mp below with rfl | ⟨rest, rfl, none⟩
    · refine readText_of_reads reads some ?_
      rw [chars, ended, charLines_linesChars reads.writable]
    · obtain rfl := List.prefix_nil.mp none
      have blank := reads.append (.blank .between)
      rw [List.append_nil] at blank
      refine readText_of_reads blank some ?_
      have feeds : linesChars init ++ (endDataWord.toList ++ ['\n', '\n']) =
          linesChars (fileTokenLines f ++ [[]]) := by
        rw [linesChars_append, ← ended, List.append_assoc, List.append_assoc]
        rfl
      rw [chars, feeds, charLines_linesChars blank.writable]

/-- A file that is cut off at any character reads exactly when it is cut behind the word
that ends the data of a table, and then as its tables up to this one. -/
theorem readText_cut (faithful : Numeral.Faithful α number) {f : File α}
    (built : ∀ t ∈ f, t.Built) (writable : ∀ t ∈ f, t.Writable number) {p : String}
    (cut : p.toList <+: (render f).toList) {g : File α} :
    readText p = .ok g ↔
      ∃ k, 0 < k ∧ k ≤ f.length ∧ g = f.take k ∧ CutBehind (f.take k) p.toList := by
  have wf : ∀ t ∈ f, t.WellFormed := fun t mem => (built t mem).wellFormed
  constructor
  · intro read
    obtain ⟨some, accepts⟩ := readText_eq_ok_iff.mp read
    rcases cut_accepts faithful wf writable cut accepts with
      ⟨none, -⟩ | ⟨k, pos, short, rfl, behind⟩
    · exact absurd none some
    · exact ⟨k, pos, short, rfl, behind⟩
  · rintro ⟨k, pos, short, rfl, behind⟩
    have some : f.take k ≠ [] := by
      intro none
      have length := congrArg List.length none
      rw [List.length_take_of_le short, List.length_nil] at length
      exact pos.ne' length
    exact readText_of_cutBehind faithful some (fun t mem => wf t (List.mem_of_mem_take mem))
      (fun t mem => writable t (List.mem_of_mem_take mem)) behind

attribute [local instance] Numeral.nat

/-- Two tables that are cut off behind the word that ends the data of the first. -/
def cutTables : String :=
  String.ofList (linesChars twoTables[0].bodyLines ++ endDataWord.toList)

theorem readText_cut_twoTables : readText cutTables = .ok (twoTables.take 1) := by
  have chars :
      cutTables.toList = linesChars twoTables[0].bodyLines ++ (endDataWord.toList ++ []) := by
    rw [cutTables, String.toList_ofList, List.append_nil]
  have text : (render twoTables).toList = linesChars (twoTables[0].tokenLines ++ [[]]) ++
      (render [twoTables[1]]).toList := toList_render_cons _ (List.cons_ne_nil _ _)
  have cut : cutTables.toList <+: (render twoTables).toList := by
    rw [chars, text, linesChars_append, Table.tokenLines, linesChars_append, List.append_nil,
      List.append_assoc, List.append_assoc, List.prefix_append_right_inj]
    exact ⟨['\n'] ++ _, rfl⟩
  refine (readText_cut Numeral.nat_faithful twoTables_built (by decide) cut).mpr
    ⟨1, Nat.one_pos, by decide, rfl, ?_⟩
  rw [chars]
  exact cutBehind_singleton twoTables[0] List.nil_prefix

end InkModel.Cgats
