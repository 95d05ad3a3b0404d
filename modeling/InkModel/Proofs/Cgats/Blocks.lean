import InkModel.Proofs.Cgats.Grammar
import InkModel.Proofs.Cgats.Run

/-! # Reading by the grammar

The runs of the reader between two tables are the sequences of blocks of the grammar that
are tables. Every phase is a piece of a block.
-/

namespace InkModel.Cgats

variable {α : Type}

section Phases

variable [Numeral α] {d : Draft} {lines : List (List Token)} {done : List (Table α)}

/-- Data sets are read up to the line that ends them. -/
theorem run_data_iff (named : d.names ≠ #[]) : Run (.data d) lines .between done ↔
    ∃ rows ends rest others t after, lines = rows ++ (ends :: rest) :: others ∧
      (∀ row ∈ rows, row.length = d.names.size ∧
        ∀ t, row.head? = some t → t.isBare endDataWord = false) ∧
      ends.isBare endDataWord = true ∧
      { d with rows := d.rows ++ (rows.map List.toArray).toArray }.finish = .ok t ∧
      Run .between others .between after ∧ done = t :: after := by
  induction lines generalizing d with
  | nil =>
      rw [Run.nil_iff]
      constructor
      · rintro ⟨⟨⟩, -⟩
      · rintro ⟨rows, ends, rest, others, t, after, lines, -⟩
        cases rows <;> cases lines
  | cons ts lines ih =>
      constructor
      · intro h
        cases h with
        | @cons _ mid _ head rest _ found done step run =>
            cases step with
            | row inside size =>
                obtain ⟨rows, ends, last, others, t, after, rfl, sets, isEnd, finished, next, rfl⟩ :=
                  (ih (d := { d with rows := d.rows.push (head :: rest).toArray }) named).mp run
                refine ⟨(head :: rest) :: rows, ends, last, others, t, after, rfl,
                  List.forall_mem_cons.mpr ⟨⟨size, ?_⟩, sets⟩, isEnd, ?_, next, rfl⟩
                · rintro t ⟨⟩
                  exact inside
                · simpa using finished
            | finish isEnd finished =>
                exact ⟨[], head, rest, lines, _, done, rfl, by simp, isEnd,
                  by simpa using finished, run, rfl⟩
      · rintro ⟨rows, ends, last, others, t, after, same, sets, isEnd, finished, next, rfl⟩
        cases rows with
        | nil =>
            obtain ⟨rfl, rfl⟩ := List.cons.inj same
            exact .cons (.finish isEnd (by simpa using finished)) next
        | cons row rows =>
            obtain ⟨rfl, rfl⟩ := List.cons.inj same
            obtain ⟨⟨size, inside⟩, later⟩ := List.forall_mem_cons.mp sets
            cases ts with
            | nil => exact absurd (Array.eq_empty_of_size_eq_zero size.symm) named
            | cons head rest =>
                refine .cons (.row (inside head rfl) size) ?_
                exact (ih (d := { d with rows := d.rows.push (head :: rest).toArray }) named).mpr
                  ⟨rows, ends, last, others, t, after, rfl, later, isEnd,
                    by simpa using finished, next, rfl⟩

/-- A format section is read up to the line on which it ends. -/
theorem run_format_iff (nodup : d.names.toList.Nodup) : Run (.format d) lines .between done ↔
    ∃ sec rest, lines = sec ++ rest ∧ IsSection sec ∧ (∀ ts ∈ sec, ts ≠ []) ∧
      (d.add (.format (sectionNames sec.flatten))).names.toList.Nodup ∧
      Run (.header (d.add (.format (sectionNames sec.flatten)))) rest .between done := by
  induction lines generalizing d with
  | nil =>
      rw [Run.nil_iff]
      constructor
      · rintro ⟨⟨⟩, -⟩
      · rintro ⟨sec, rest, none, ends, -⟩
        cases ends <;> cases none
  | cons ts lines ih =>
      constructor
      · intro h
        cases h with
        | @cons _ mid _ head rest _ found done step run =>
            cases step with
            | names added =>
                obtain ⟨rfl, distinct, inside⟩ := (Draft.addNames_eq_ok_iff_add nodup).mp added
                obtain ⟨sec, others, rfl, ends, nonblank, all, later⟩ := (ih distinct).mp run
                refine ⟨(head :: rest) :: sec, others, rfl, .cons inside.symm ends,
                  List.forall_mem_cons.mpr ⟨List.cons_ne_nil _ _, nonblank⟩, ?_⟩
                rw [List.flatten_cons, Draft.add_section d inside.symm]
                exact ⟨all, later⟩
            | lastNames added =>
                obtain ⟨rfl, distinct, ends⟩ := (Draft.addNames_eq_ok_iff_add nodup).mp added
                refine ⟨[head :: rest], lines, rfl, .last ends.symm, by simp, ?_⟩
                rw [List.flatten_singleton]
                exact ⟨distinct, run⟩
      · rintro ⟨sec, rest, same, ends, nonblank, distinct, run⟩
        cases ends with
        | @last ts' ends =>
            obtain ⟨rfl, rfl⟩ := List.cons.inj same
            rw [List.flatten_singleton] at distinct run
            obtain ⟨head, others, rfl⟩ := List.exists_cons_of_ne_nil (nonblank ts (by simp))
            exact .cons (.lastNames ((Draft.addNames_eq_ok_iff_add nodup).mpr
              ⟨rfl, distinct, ends.symm⟩)) run
        | @cons ts' sec inside ends =>
            obtain ⟨rfl, rfl⟩ := List.cons.inj same
            rw [List.flatten_cons, Draft.add_section d inside] at distinct run
            obtain ⟨first, filled⟩ := List.forall_mem_cons.mp nonblank
            have now := Draft.nodup_of_add distinct
            obtain ⟨head, others, rfl⟩ := List.exists_cons_of_ne_nil first
            refine .cons (.names ((Draft.addNames_eq_ok_iff_add nodup).mpr
              ⟨rfl, now, inside.symm⟩)) ?_
            exact (ih now).mpr ⟨sec, rest, rfl, ends, filled, distinct, run⟩

theorem countOf_eq_ok_iff {head : Token} {rest : List Token} {n : ℕ} :
    countOf head rest = .ok n ↔
      ∃ second others, rest = second :: others ∧ Decimal.readCount second.text = some n := by
  cases rest with
  | nil => simp [countOf]
  | cons second others =>
      unfold countOf
      dsimp only [List.head?_cons, Option.bind_some]
      cases reads : Decimal.readCount second.text with
      | none => simp [reads]
      | some n' => simp [reads]

/-- A header either ends or goes on with a piece. -/
theorem run_header_first_iff (nodup : d.names.toList.Nodup) :
    Run (.header d) lines .between done ↔
      (∃ begins rest others, lines = (begins :: rest) :: others ∧ begins.text = beginDataWord ∧
        d.names ≠ #[] ∧ Run (.data d) others .between done) ∨
      ∃ item part others, lines = part ++ others ∧ HeaderItem.Written item part ∧
        (d.add item).names.toList.Nodup ∧ Run (.header (d.add item)) others .between done := by
  constructor
  · intro h
    cases h with
    | @cons _ mid _ head rest lines found done step run =>
        cases step with
        | header step =>
            cases step with
            | declaration word =>
                exact .inr ⟨.declaration, [head :: rest], lines, rfl, .declaration word, nodup, run⟩
            | @fieldCount n word count =>
                obtain ⟨second, others, rfl, reads⟩ := countOf_eq_ok_iff.mp count
                exact .inr ⟨.fieldCount n, [head :: second :: others], lines, rfl,
                  .fieldCount word reads, nodup, run⟩
            | @setCount n word count =>
                obtain ⟨second, others, rfl, reads⟩ := countOf_eq_ok_iff.mp count
                exact .inr ⟨.setCount n, [head :: second :: others], lines, rfl,
                  .setCount word reads, nodup, run⟩
            | format word added =>
                obtain ⟨rfl, distinct, ends⟩ := (Draft.addNames_eq_ok_iff_add nodup).mp added
                have written := HeaderItem.Written.format word (.last ends.symm) (by simp)
                rw [List.flatten_singleton] at written
                exact .inr ⟨_, _, lines, rfl, written, distinct, run⟩
            | openFormat word added =>
                obtain ⟨rfl, distinct, inside⟩ := (Draft.addNames_eq_ok_iff_add nodup).mp added
                obtain ⟨sec, others, rfl, ends, nonblank, all, run⟩ :=
                  (run_format_iff distinct).mp run
                refine .inr ⟨_, _, others, rfl, .format word (.cons inside.symm ends) nonblank, ?_⟩
                rw [List.flatten_cons, Draft.add_section d inside.symm]
                exact ⟨all, run⟩
            | data word named => exact .inl ⟨head, rest, lines, rfl, word, named, run⟩
            | keyword free =>
                exact .inr ⟨_, [head :: rest], lines, rfl, .keyword free, nodup, run⟩
  · rintro (⟨begins, rest, others, rfl, word, named, run⟩ |
      ⟨item, part, others, rfl, written, distinct, run⟩)
    · exact .cons (.header (.data word named)) run
    · cases written with
      | declaration word => exact .cons (.header (.declaration word)) run
      | fieldCount word count =>
          exact .cons (.header (.fieldCount word (countOf_eq_ok_iff.mpr ⟨_, _, rfl, count⟩))) run
      | setCount word count =>
          exact .cons (.header (.setCount word (countOf_eq_ok_iff.mpr ⟨_, _, rfl, count⟩))) run
      | @format head rest sec word ends nonblank =>
          cases ends with
          | last ends =>
              rw [List.flatten_singleton] at distinct run
              exact .cons (.header (.format word ((Draft.addNames_eq_ok_iff_add nodup).mpr
                ⟨rfl, distinct, ends.symm⟩))) run
          | cons inside ends =>
              rw [List.flatten_cons, Draft.add_section d inside] at distinct run
              have now := Draft.nodup_of_add distinct
              refine .cons (.header (.openFormat word ((Draft.addNames_eq_ok_iff_add nodup).mpr
                ⟨rfl, now, inside.symm⟩))) ?_
              exact (run_format_iff now).mpr ⟨sec, others, rfl, ends, nonblank, distinct, run⟩
      | keyword free => exact .cons (.header (.keyword free)) run

theorem HeaderItem.Written.ne_nil {item : HeaderItem} {part : List (List Token)}
    (h : item.Written part) : part ≠ [] := by
  cases h <;> exact List.cons_ne_nil _ _

/-- A header is read up to the line on which the data sets begin. -/
theorem run_header_iff (nodup : d.names.toList.Nodup) : Run (.header d) lines .between done ↔
    ∃ items parts begins rest others,
      lines = parts.flatten ++ (begins :: rest) :: others ∧
      List.Forall₂ HeaderItem.Written items parts ∧ begins.text = beginDataWord ∧
      (items.foldl Draft.add d).names ≠ #[] ∧ (items.foldl Draft.add d).names.toList.Nodup ∧
      Run (.data (items.foldl Draft.add d)) others .between done := by
  constructor
  · intro h
    induction size : lines.length using Nat.strong_induction_on generalizing d lines with
    | _ size' ih =>
      rcases (run_header_first_iff nodup).mp h with
        ⟨begins, rest, others, rfl, word, named, run⟩ |
        ⟨item, part, others, rfl, written, distinct, run⟩
      · exact ⟨[], [], begins, rest, others, rfl, .nil, word, named, nodup, run⟩
      · have shorter : others.length < size' := by
          have := List.length_pos_of_ne_nil written.ne_nil
          rw [← size, List.length_append]
          omega
        obtain ⟨items, parts, begins, rest, others, rfl, more⟩ := ih _ shorter distinct run rfl
        refine ⟨item :: items, part :: parts, begins, rest, others, ?_, ?_⟩
        · rw [List.flatten_cons, List.append_assoc]
        · exact ⟨.cons written more.1, more.2⟩
  · rintro ⟨items, parts, begins, rest, others, rfl, written, word, named, distinct, run⟩
    induction written generalizing d with
    | nil => exact .cons (.header (.data word named)) run
    | @cons item part items parts first written ih =>
        have now : (d.add item).names.toList.Nodup := by
          rw [List.foldl_cons, Draft.foldl_add, Array.toList_append] at distinct
          exact (List.nodup_append.mp distinct).1
        rw [List.flatten_cons, List.append_assoc]
        exact (run_header_first_iff nodup).mpr
          (.inr ⟨item, part, _, rfl, first, now, ih now named distinct run⟩)

end Phases

/-! Blocks. -/

namespace Block

variable [Numeral α] {b : Block}

/-- What the reader has collected of a block at its end. -/
def draft (b : Block) : Draft :=
  { b.header.foldl Draft.add { kind := b.kind } with
    rows := (b.rows.map List.toArray).toArray }

theorem draft_eq (b : Block) : b.draft =
    { kind := b.kind, keywords := lastValues b.keywords, names := b.names.toArray,
      rows := (b.rows.map List.toArray).toArray, fieldCount := b.fieldCount?,
      setCount := b.setCount? } := by
  rw [draft, Draft.foldl_add, foldl_setKey]
  simp [names, keywords, fieldCount?, setCount?]

theorem isNumeral_eq : Draft.isNumeral α = fun t => (t.number? : Option α).isSome := by
  funext t
  unfold Draft.isNumeral Token.number?
  cases t.quoted <;> rfl

theorem columnType_draft (b : Block) (col : ℕ) :
    b.draft.columnType α col = if b.isNumeric α col then .real else .text := by
  have all : b.draft.rows.all (fun row => (row[col]?).all (Draft.isNumeral α)) =
      b.isNumeric α col := by
    rw [draft_eq, isNumeric, isNumeral_eq, List.all_toArray, List.all_map]
    congr 1
    funext row
    simp
  rw [Draft.columnType, all]

theorem cellOf_eq {row : List Token} (mem : row ∈ b.rows) {col : ℕ} (hc : col < row.length) :
    Draft.cellOf row[col] (if b.isNumeric α col then .real else .text) =
      (b.cell col row[col] : Cell α) := by
  unfold cell
  cases numeric : b.isNumeric α col with
  | false => rfl
  | true =>
      have number := List.all_eq_true.mp numeric row mem
      rw [List.getElem?_eq_getElem hc] at number
      obtain ⟨x, hx⟩ := Option.isSome_iff_exists.mp number
      have reads : (Numeral.read? row[col].text : Option α) = some x := by
        unfold Token.number? at hx
        split at hx
        · cases hx
        · exact hx
      simp only [↓reduceIte, hx, Draft.cellOf, reads]

/-- A block is finished when the counts that it states are right. -/
theorem finish_draft_iff (sizes : ∀ row ∈ b.rows, row.length = b.names.length) {t : Table α} :
    b.draft.finish = .ok t ↔
      (∀ n, b.fieldCount? = some n → n = b.names.length) ∧
        (∀ n, b.setCount? = some n → n = b.rows.length) ∧ t = b.table := by
  have fields : (b.draft.names.mapIdx fun i name => (⟨name, b.draft.columnType α i⟩ : Field)) =
      (b.table : Table α).fields := by
    simp only [columnType_draft]
    simp [draft_eq, table]
  have rows : b.draft.rows.map (fun row => Array.zipWith
      (fun t (f : Field) => (Draft.cellOf t f.type : Cell α)) row (b.table : Table α).fields) =
        (b.table : Table α).rows := by
    rw [draft_eq, table]
    simp only [List.map_toArray, List.map_map, Array.mk.injEq]
    refine List.map_congr_left fun row mem => Array.ext (by simp [sizes row mem]) fun i h₁ h₂ => ?_
    have hi : i < row.length := by simpa using h₂
    simpa using cellOf_eq (α := α) mem hi
  have names : b.draft.names.size = b.names.length := by simp [draft_eq]
  have count : b.draft.rows.size = b.rows.length := by simp [draft_eq]
  have stated (o : Option ℕ) (m : ℕ) :
      (o.any fun n => n ≠ m) = true ↔ ¬∀ n, o = some n → n = m := by
    cases o <;> simp
  have fieldCount : b.draft.fieldCount = b.fieldCount? := by rw [draft_eq]
  have setCount : b.draft.setCount = b.setCount? := by rw [draft_eq]
  have same : b.draft.kind = (b.table : Table α).kind ∧
      b.draft.keywords = (b.table : Table α).keywords := by simp [draft_eq, table]
  unfold Draft.finish
  dsimp only
  rw [fields, rows, names, count, fieldCount, setCount, same.1, same.2]
  split_ifs with wrongFields wrongSets
  · simp [(stated _ _).mp wrongFields]
  · simp [(stated _ _).mp wrongSets]
  · have fieldsRight := not_not.mp (mt (stated _ _).mpr wrongFields)
    have setsRight := not_not.mp (mt (stated _ _).mpr wrongSets)
    constructor
    · rintro ⟨⟩
      exact ⟨fieldsRight, setsRight, rfl⟩
    · rintro ⟨-, -, rfl⟩
      rfl

theorem Written.ne_nil {part : List (List Token)} (h : b.Written part) : part ≠ [] := by
  cases h
  exact List.cons_ne_nil _ _

/-- Between two tables the text either ends or goes on with a block. -/
theorem run_first_iff {lines : List (List Token)} {done : List (Table α)} :
    Run .between lines .between done ↔ (lines = [] ∧ done = []) ∨
      ∃ (b : Block) (part others : List (List Token)) (after : List (Table α)),
        lines = part ++ others ∧ b.Written part ∧ b.Valid ∧ Run .between others .between after ∧
          done = b.table :: after := by
  have opened (kind : String) : (({ kind } : Draft).names.toList).Nodup := List.nodup_nil
  have collected (b : Block) :
      (b.header.foldl Draft.add { kind := b.kind }).names = b.names.toArray ∧
        { b.header.foldl Draft.add { kind := b.kind } with
          rows := (b.header.foldl Draft.add { kind := b.kind }).rows ++
            (b.rows.map List.toArray).toArray } = b.draft := by
    rw [draft, Draft.foldl_add]
    simp [names]
  constructor
  · intro h
    cases h with
    | nil => exact .inl ⟨rfl, rfl⟩
    | @cons _ mid _ head rest lines found done step run =>
        cases step with
        | kind =>
            obtain ⟨items, parts, begins, beginsRest, others, rfl, written, word, named, distinct,
              run⟩ := (run_header_iff (opened _)).mp run
            obtain ⟨rows, ends, endsRest, others, t, after, rfl, sets, isEnd, finished, next,
              rfl⟩ := (run_data_iff named).mp run
            obtain ⟨b, kind, rfl, rfl⟩ : ∃ b : Block,
                head.text = b.kind ∧ items = b.header ∧ rows = b.rows :=
              ⟨⟨head.text, items, rows⟩, rfl, rfl, rfl⟩
            obtain ⟨names, whole⟩ := collected b
            rw [kind, names] at named distinct sets
            rw [kind, whole] at finished
            have sizes : ∀ row ∈ b.rows, row.length = b.names.length :=
              fun row mem => (sets row mem).1
            obtain ⟨fieldCount, setCount, rfl⟩ := (finish_draft_iff sizes).mp finished
            have valid : b.Valid :=
              ⟨by simpa using named, distinct, sizes, fun row mem => (sets row mem).2, fieldCount,
                setCount⟩
            have block : b.Written ((head :: rest) :: (parts.flatten ++
                (begins :: beginsRest) :: (b.rows ++ [ends :: endsRest]))) :=
              .lines kind written word isEnd
            exact .inr ⟨b, _, others, after, by simp, block, valid, next, rfl⟩
  · rintro (⟨rfl, rfl⟩ | ⟨b, part, others, after, rfl, written, valid, run, rfl⟩)
    · exact .nil .between
    · cases written with
      | @lines kind begins ends kindRest beginsRest endsRest header named items data last =>
          obtain ⟨names, whole⟩ := collected b
          have finished : b.draft.finish = .ok (b.table : Table α) :=
            (finish_draft_iff valid.rowLength).mpr ⟨valid.fieldCount, valid.setCount, rfl⟩
          rw [← named] at names whole
          have some : (b.header.foldl Draft.add { kind := kind.text }).names ≠ #[] := by
            rw [names]
            simpa using valid.named
          have distinct : (b.header.foldl Draft.add { kind := kind.text }).names.toList.Nodup := by
            rw [names]
            exact valid.distinct
          refine .cons .kind ((run_header_iff (opened _)).mpr ⟨b.header, header, begins, beginsRest,
            _, ?_, items, data, some, distinct, (run_data_iff some).mpr ⟨b.rows, ends, endsRest,
            others, b.table, after, rfl, fun row mem => ⟨?_, valid.rowHead row mem⟩, last, ?_,
            run, rfl⟩⟩)
          · simp
          · rw [names]
            exact valid.rowLength row mem
          · rwa [whole]

/-- What is read between two tables is a sequence of blocks. -/
theorem run_iff {lines : List (List Token)} {done : List (Table α)} :
    Run .between lines .between done ↔
      ∃ blocks parts, lines = parts.flatten ∧ List.Forall₂ Written blocks parts ∧
        (∀ b ∈ blocks, b.Valid) ∧ done = blocks.map table := by
  constructor
  · intro h
    induction size : lines.length using Nat.strong_induction_on generalizing lines done with
    | _ size' ih =>
      rcases run_first_iff.mp h with ⟨rfl, rfl⟩ |
        ⟨b, part, others, after, rfl, written, valid, run, rfl⟩
      · exact ⟨[], [], rfl, .nil, by simp, rfl⟩
      · have shorter : others.length < size' := by
          have := List.length_pos_of_ne_nil written.ne_nil
          rw [← size, List.length_append]
          omega
        obtain ⟨blocks, parts, rfl, all, valids, rfl⟩ := ih _ shorter run rfl
        exact ⟨b :: blocks, part :: parts, rfl, .cons written all,
          List.forall_mem_cons.mpr ⟨valid, valids⟩, rfl⟩
  · rintro ⟨blocks, parts, rfl, written, valid, rfl⟩
    induction written with
    | nil => exact .nil .between
    | cons first written ih =>
        obtain ⟨now, later⟩ := List.forall_mem_cons.mp valid
        exact run_first_iff.mpr (.inr ⟨_, _, _, _, rfl, first, now, ih later, rfl⟩)

end Block

/-- A text reads exactly when its lines are lines of words and those that are not blank
form blocks, at least one, that are tables. These are the tables that are read. -/
theorem readText_eq_ok_iff_blocks [Numeral α] {s : String} {f : File α} :
    readText s = .ok f ↔
      ∃ (lines : List (List Token)) (blocks : List Block) (parts : List (List (List Token))),
        (textLines s).mapM tokenize = some lines ∧ lines.filter (· ≠ []) = parts.flatten ∧
          List.Forall₂ Block.Written blocks parts ∧ (∀ b ∈ blocks, b.Valid) ∧ blocks ≠ [] ∧
          f = blocks.map Block.table := by
  rw [readText_eq_ok_iff]
  constructor
  · rintro ⟨some, lines, words, run⟩
    obtain ⟨blocks, parts, same, written, valid, rfl⟩ := Block.run_iff.mp run
    exact ⟨lines, blocks, parts, words, same, written, valid, by simpa using some, rfl⟩
  · rintro ⟨lines, blocks, parts, words, same, written, valid, some, rfl⟩
    exact ⟨by simpa using some, lines, words,
      Block.run_iff.mpr ⟨blocks, parts, same, written, valid, rfl⟩⟩

end InkModel.Cgats
