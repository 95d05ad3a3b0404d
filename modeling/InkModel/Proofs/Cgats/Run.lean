import InkModel.Proofs.Cgats.Step
import InkModel.Proofs.Runs

/-! # Runs of the reader

Lines of words lead the reader from one phase to another and finish tables on the
way. The lines of a text that reads lead from between two tables to between two.
-/

namespace InkModel.Cgats

variable {α : Type} [Numeral α]

/-- Whether lines of words, none of them empty, lead from a phase to another and finish
these tables. -/
inductive Run : Phase → List (List Token) → Phase → List (Table α) → Prop
  | nil (phase : Phase) : Run phase [] phase []
  | cons {phase mid last : Phase} {head : Token} {rest : List Token} {lines : List (List Token)}
      {found : Option (Table α)} {done : List (Table α)}
      (step : LineStep phase head rest mid found) (run : Run mid lines last done) :
      Run phase ((head :: rest) :: lines) last (found.toList ++ done)

namespace Run

variable {phase mid last last' : Phase} {head : Token} {rest : List Token}
  {lines lines' : List (List Token)} {done done' : List (Table α)}

theorem nil_iff : Run phase [] last done ↔ last = phase ∧ done = [] := by
  constructor
  · intro h
    cases h
    exact ⟨rfl, rfl⟩
  · rintro ⟨rfl, rfl⟩
    exact .nil last

theorem cons_iff : Run phase ((head :: rest) :: lines) last done ↔
    ∃ mid found others, LineStep phase head rest mid found ∧ Run mid lines last others ∧
      done = found.toList ++ others := by
  constructor
  · intro h
    cases h with
    | cons step run => exact ⟨_, _, _, step, run, rfl⟩
  · rintro ⟨mid, found, others, step, run, rfl⟩
    exact .cons step run

theorem nonblank (h : Run phase lines last done) : ∀ ts ∈ lines, ts ≠ [] := by
  induction h with
  | nil => simp
  | cons step run ih => exact List.forall_mem_cons.mpr ⟨List.cons_ne_nil _ _, ih⟩

theorem append (h : Run phase lines mid done) (h' : Run mid lines' last done') :
    Run phase (lines ++ lines') last (done ++ done') := by
  induction h with
  | nil => exact h'
  | cons step run ih =>
      rw [List.cons_append, List.append_assoc]
      exact .cons step (ih h')

theorem of_append (h : Run phase (lines ++ lines') last done) :
    ∃ mid before after, Run phase lines mid before ∧ Run mid lines' last after ∧
      done = before ++ after := by
  induction lines generalizing phase done with
  | nil => exact ⟨phase, [], done, .nil phase, h, rfl⟩
  | cons ts lines ih =>
      cases h with
      | cons step run =>
          obtain ⟨mid, before, after, first, second, rfl⟩ := ih run
          exact ⟨mid, _, after, .cons step first, second, (List.append_assoc _ _ _).symm⟩

theorem unique (h : Run phase lines last done) (h' : Run phase lines last' done') :
    last = last' ∧ done = done' := by
  induction h generalizing last' done' with
  | nil =>
      obtain ⟨rfl, rfl⟩ := nil_iff.mp h'
      exact ⟨rfl, rfl⟩
  | cons step run ih =>
      obtain ⟨mid, found, others, step', run', rfl⟩ := cons_iff.mp h'
      obtain ⟨rfl, rfl⟩ := step.unique step'
      obtain ⟨rfl, rfl⟩ := ih run'
      exact ⟨rfl, rfl⟩

end Run

/-! Reading a text. -/

omit [Numeral α] in
theorem atEnd_eq_ok_iff {line : ℕ} {phase : Phase} {tables : Array (Table α)} {f : File α} :
    atEnd line phase tables = .ok f ↔ phase = .between ∧ f = tables.toList ∧ f ≠ [] := by
  cases phase with
  | between =>
      rw [atEnd]
      split
      · rename_i none
        rw [Array.isEmpty_iff.mp none]
        constructor
        · rintro ⟨⟩
        · rintro ⟨-, rfl, some⟩
          exact absurd rfl some
      · rename_i some
        constructor
        · rintro ⟨⟩
          exact ⟨rfl, rfl, by simpa using some⟩
        · rintro ⟨-, rfl, -⟩
          rfl
  | header d => simp [atEnd]
  | format d => simp [atEnd]
  | data d => simp [atEnd]

theorem mapM_cons_eq_some_iff {β γ : Type} {f : β → Option γ} {x : β} {xs : List β} {zs : List γ} :
    (x :: xs).mapM f = some zs ↔ ∃ y ys, f x = some y ∧ xs.mapM f = some ys ∧ zs = y :: ys := by
  rw [List.mapM_cons]
  simp only [Option.bind_eq_bind, Option.bind_eq_some_iff, Option.pure_def, Option.some.injEq]
  constructor
  · rintro ⟨y, first, ys, others, rfl⟩
    exact ⟨y, ys, first, others, rfl⟩
  · rintro ⟨y, ys, first, others, rfl⟩
    exact ⟨y, first, ys, others, rfl⟩

theorem forall₂_of_mapM {β γ : Type} {f : β → Option γ} {xs : List β} {ys : List γ}
    (h : xs.mapM f = some ys) : List.Forall₂ (fun x y => f x = some y) xs ys := by
  induction xs generalizing ys with
  | nil =>
      cases h
      exact .nil
  | cons x xs ih =>
      obtain ⟨y, others, first, rest, rfl⟩ := mapM_cons_eq_some_iff.mp h
      exact .cons first (ih rest)

section Lines

variable {line : ℕ} {phase : Phase} {tables : Array (Table α)} {cs : List Char}

theorem readFrom_blank (words : tokenize cs = some []) (lines : List (Option (List Char))) :
    readFrom line phase tables (some cs :: lines) = readFrom (line + 1) phase tables lines := by
  rw [readFrom, words]

theorem readFrom_words {head : Token} {rest : List Token}
    (words : tokenize cs = some (head :: rest)) (lines : List (Option (List Char))) :
    readFrom line phase tables (some cs :: lines) =
      (lineStep (line + 1) phase head rest).bind fun next =>
        readFrom (line + 1) next.1 (tables ++ next.2.toList.toArray) lines := by
  rw [readFrom, words]
  dsimp only
  cases lineStep (α := α) (line + 1) phase head rest with
  | error e => rfl
  | ok next =>
      obtain ⟨mid, found⟩ := next
      cases found with
      | none => simp [Except.bind]
      | some t => simp [Except.bind]

theorem readFrom_eq_ok_iff {texts : List (List Char)} {f : File α} :
    readFrom line phase tables (texts.map some) = .ok f ↔
      ∃ lines done, texts.mapM tokenize = some lines ∧
        Run phase (lines.filter (· ≠ [])) .between done ∧ f = tables.toList ++ done ∧ f ≠ [] := by
  induction texts generalizing line phase tables with
  | nil =>
      rw [List.map_nil, readFrom, atEnd_eq_ok_iff]
      constructor
      · rintro ⟨rfl, rfl, some⟩
        exact ⟨[], [], rfl, .nil _, (List.append_nil _).symm, some⟩
      · rintro ⟨lines, done, words, run, rfl, some⟩
        cases words
        obtain ⟨rfl, rfl⟩ := Run.nil_iff.mp run
        exact ⟨rfl, List.append_nil _, some⟩
  | cons cs texts ih =>
      rw [List.map_cons]
      constructor
      · intro h
        cases words : tokenize cs with
        | none =>
            rw [readFrom, words] at h
            cases h
        | some ts =>
            cases ts with
            | nil =>
                rw [readFrom_blank words, ih] at h
                obtain ⟨lines, done, all, run, read⟩ := h
                exact ⟨[] :: lines, done, mapM_cons_eq_some_iff.mpr ⟨[], lines, words, all, rfl⟩,
                  by simpa using run, read⟩
            | cons head rest =>
                rw [readFrom_words words] at h
                cases step : lineStep (α := α) (line + 1) phase head rest with
                | error e =>
                    rw [step] at h
                    cases h
                | ok next =>
                    rw [step, Except.bind, ih] at h
                    obtain ⟨lines, done, all, run, rfl, some⟩ := h
                    refine ⟨(head :: rest) :: lines, next.2.toList ++ done,
                      mapM_cons_eq_some_iff.mpr ⟨_, lines, words, all, rfl⟩, ?_, ?_, some⟩
                    · rw [List.filter_cons_of_pos (by simp)]
                      exact .cons (lineStep_eq_ok_iff.mp step) run
                    · simp
      · rintro ⟨_, done, all, run, rfl, some⟩
        obtain ⟨ts, lines, words, tokens, rfl⟩ := mapM_cons_eq_some_iff.mp all
        cases ts with
        | nil =>
            rw [readFrom_blank words, ih]
            exact ⟨lines, done, tokens, by simpa using run, rfl, some⟩
        | cons head rest =>
            rw [List.filter_cons_of_pos (by simp), Run.cons_iff] at run
            obtain ⟨mid, found, others, step, run, rfl⟩ := run
            rw [readFrom_words words, lineStep_eq_ok_iff.mpr step, Except.bind, ih]
            exact ⟨lines, others, tokens, run, by simp, some⟩

end Lines

/-- A text reads when all its lines are lines of words, and those that are not blank lead
from between two tables to between two. -/
theorem readText_eq_ok_iff {s : String} {f : File α} :
    readText s = .ok f ↔ f ≠ [] ∧ ∃ lines, (textLines s).mapM tokenize = some lines ∧
      Run .between (lines.filter (· ≠ [])) .between f := by
  rw [readText, readFrom_eq_ok_iff]
  constructor
  · rintro ⟨lines, done, words, run, rfl, some⟩
    exact ⟨some, lines, words, run⟩
  · rintro ⟨some, lines, words, run⟩
    exact ⟨lines, f, words, run, rfl, some⟩

end InkModel.Cgats
