import InkModel.Cgats.Reader
import Mathlib

/-! # Steps of the reader

What a line of words does to the reader, as a relation: it is the same on every line.
-/

namespace InkModel.Cgats

/-- The words that no keyword may have as its name. -/
def reservedWords : List String :=
  [keywordWord, fieldCountWord, setCountWord, beginFormatWord, beginDataWord]

/-! Names of fields. -/

/-- The names up to the word that ends a format section. -/
def sectionNames (ts : List Token) : List String :=
  (ts.takeWhile fun t => !t.isBare endFormatWord).map Token.text

/-- Whether a format section ends among some words. -/
def endsSection (ts : List Token) : Bool := ts.any (·.isBare endFormatWord)

theorem sectionNames_cons {t : Token} (inside : t.isBare endFormatWord = false)
    (ts : List Token) : sectionNames (t :: ts) = t.text :: sectionNames ts := by
  simp [sectionNames, inside]

theorem sectionNames_append {ts : List Token} (inside : endsSection ts = false)
    (us : List Token) : sectionNames (ts ++ us) = sectionNames ts ++ sectionNames us := by
  induction ts with
  | nil => rfl
  | cons t ts ih =>
      rw [endsSection, List.any_cons, Bool.or_eq_false_iff] at inside
      rw [List.cons_append, sectionNames_cons inside.1, sectionNames_cons inside.1, ih inside.2,
        List.cons_append]

theorem Draft.addNames_eq_ok_iff {d d' : Draft} (nodup : d.names.toList.Nodup) {ts : List Token}
    {ended : Bool} : d.addNames ts = .ok (d', ended) ↔
      (d.names.toList ++ sectionNames ts).Nodup ∧
        d' = { d with names := d.names ++ (sectionNames ts).toArray } ∧ ended = endsSection ts := by
  induction ts generalizing d with
  | nil => simp [addNames, sectionNames, endsSection, nodup, eq_comm]
  | cons t ts ih =>
      rw [addNames]
      cases ends : t.isBare endFormatWord with
      | true => simp [sectionNames, endsSection, ends, nodup, eq_comm]
      | false =>
          rw [if_neg Bool.false_ne_true, sectionNames_cons ends]
          have later : endsSection (t :: ts) = endsSection ts := by simp [endsSection, ends]
          by_cases known : t.text ∈ d.names.toList
          · have refused : ¬(d.names.toList ++ t.text :: sectionNames ts).Nodup := by
              intro distinct
              exact (List.nodup_append.mp distinct).2.2 _ known _ List.mem_cons_self rfl
            simp [refused, Array.mem_toList_iff.mp known]
          · have pushed : (d.names.push t.text).toList.Nodup := by
              rw [Array.toList_push]
              exact nodup.append (List.nodup_singleton t.text) (by simpa using known)
            rw [if_neg (by simpa using known), ih pushed, later]
            simp

/-! What a line does. -/

/-- What a line of the words `head` and `rest` does in the header of a table. -/
inductive HeaderStep (d : Draft) (head : Token) (rest : List Token) : Phase → Prop
  | declaration (word : head.text = keywordWord) : HeaderStep d head rest (.header d)
  | fieldCount {n : ℕ} (word : head.text = fieldCountWord) (count : countOf head rest = .ok n) :
      HeaderStep d head rest (.header { d with fieldCount := some n })
  | setCount {n : ℕ} (word : head.text = setCountWord) (count : countOf head rest = .ok n) :
      HeaderStep d head rest (.header { d with setCount := some n })
  | format {d' : Draft} (word : head.text = beginFormatWord)
      (names : d.addNames rest = .ok (d', true)) : HeaderStep d head rest (.header d')
  | openFormat {d' : Draft} (word : head.text = beginFormatWord)
      (names : d.addNames rest = .ok (d', false)) : HeaderStep d head rest (.format d')
  | data (word : head.text = beginDataWord) (named : d.names ≠ #[]) :
      HeaderStep d head rest (.data d)
  | keyword (free : head.text ∉ reservedWords) : HeaderStep d head rest
      (.header { d with
        keywords := setKey head.text (String.intercalate " " (rest.map Token.text)) d.keywords })

/-- What a line of words does: the next phase and the table that it finishes. -/
inductive LineStep {α : Type} [Numeral α] :
    Phase → Token → List Token → Phase → Option (Table α) → Prop
  | kind {head : Token} {rest : List Token} :
      LineStep .between head rest (.header { kind := head.text }) none
  | header {d : Draft} {head : Token} {rest : List Token} {phase : Phase}
      (step : HeaderStep d head rest phase) : LineStep (.header d) head rest phase none
  | names {d d' : Draft} {head : Token} {rest : List Token}
      (names : d.addNames (head :: rest) = .ok (d', false)) :
      LineStep (.format d) head rest (.format d') none
  | lastNames {d d' : Draft} {head : Token} {rest : List Token}
      (names : d.addNames (head :: rest) = .ok (d', true)) :
      LineStep (.format d) head rest (.header d') none
  | row {d : Draft} {head : Token} {rest : List Token}
      (inside : head.isBare endDataWord = false) (size : rest.length + 1 = d.names.size) :
      LineStep (.data d) head rest (.data { d with rows := d.rows.push (head :: rest).toArray })
        none
  | finish {d : Draft} {head : Token} {rest : List Token} {t : Table α}
      (ends : head.isBare endDataWord = true) (finished : d.finish = .ok t) :
      LineStep (.data d) head rest .between (some t)

theorem headerStep_eq_ok_iff {line : ℕ} {d : Draft} {head : Token} {rest : List Token}
    {phase : Phase} : headerStep line d head rest = .ok phase ↔ HeaderStep d head rest phase := by
  constructor
  · intro h
    unfold headerStep at h
    split_ifs at h with declaration fields sets format data noNames
    · cases h
      exact .declaration declaration
    · split at h <;> cases h
      exact .fieldCount fields ‹_›
    · split at h <;> cases h
      exact .setCount sets ‹_›
    · split at h <;> cases h
      · exact .format format ‹_›
      · exact .openFormat format ‹_›
    · cases h
      exact .data data (by simpa using noNames)
    · cases h
      exact .keyword (by simp [reservedWords, *])
  · intro h
    unfold headerStep
    cases h with
    | declaration word => rw [if_pos word]
    | fieldCount word count => rw [word, if_neg (by decide), if_pos rfl, count]
    | setCount word count =>
        rw [word, if_neg (by decide), if_neg (by decide), if_pos rfl, count]
    | format word names =>
        rw [word, if_neg (by decide), if_neg (by decide), if_neg (by decide), if_pos rfl, names]
    | openFormat word names =>
        rw [word, if_neg (by decide), if_neg (by decide), if_neg (by decide), if_pos rfl, names]
    | data word named =>
        rw [word, if_neg (by decide), if_neg (by decide), if_neg (by decide), if_neg (by decide),
          if_pos rfl, if_neg (by simpa using named)]
    | keyword free =>
        simp only [reservedWords, List.mem_cons, List.not_mem_nil, or_false, not_or] at free
        obtain ⟨noKeyword, noFields, noSets, noFormat, noData⟩ := free
        rw [if_neg noKeyword, if_neg noFields, if_neg noSets, if_neg noFormat, if_neg noData]

theorem lineStep_eq_ok_iff {α : Type} [Numeral α] {line : ℕ} {phase mid : Phase} {head : Token}
    {rest : List Token} {found : Option (Table α)} :
    lineStep line phase head rest = .ok (mid, found) ↔ LineStep phase head rest mid found := by
  constructor
  · intro h
    unfold lineStep at h
    cases phase with
    | between =>
        cases h
        exact .kind
    | header d =>
        dsimp only at h
        cases entered : headerStep line d head rest with
        | error e =>
            rw [entered] at h
            cases h
        | ok next =>
            rw [entered] at h
            cases h
            exact .header (headerStep_eq_ok_iff.mp entered)
    | format d =>
        dsimp only at h
        split at h <;> cases h
        · exact .lastNames ‹_›
        · exact .names ‹_›
    | data d =>
        dsimp only at h
        split_ifs at h with ends size
        · split at h <;> cases h
          exact .finish ends ‹_›
        · cases h
          exact .row (by simpa using ends) (not_not.mp size)
  · intro h
    unfold lineStep
    cases h with
    | kind => rfl
    | header step =>
        dsimp only
        rw [headerStep_eq_ok_iff.mpr step]
        rfl
    | names names =>
        dsimp only
        rw [names]
    | lastNames names =>
        dsimp only
        rw [names]
    | row inside size =>
        dsimp only
        rw [inside, if_neg Bool.false_ne_true, if_neg (not_not.mpr size)]
    | finish ends finished =>
        dsimp only
        rw [if_pos ends, finished]

theorem LineStep.unique {α : Type} [Numeral α] {phase mid mid' : Phase} {head : Token}
    {rest : List Token} {found found' : Option (Table α)}
    (step : LineStep phase head rest mid found) (step' : LineStep phase head rest mid' found') :
    mid = mid' ∧ found = found' := by
  have first : lineStep 0 phase head rest = .ok (mid, found) := lineStep_eq_ok_iff.mpr step
  have second : lineStep 0 phase head rest = .ok (mid', found') := lineStep_eq_ok_iff.mpr step'
  exact Prod.mk.inj (Except.ok.inj (first.symm.trans second))

end InkModel.Cgats
