import InkModel.Cgats.Edit
import InkModel.Proofs.Cgats.Grammar
import InkModel.Proofs.Cgats.Reader
import InkModel.Proofs.Cgats.Writer

/-! # Tables that calls have made

Whatever calls are made on a new table, accepted or refused, the table holds what the accepted
ones said, and it is as well formed as a table that was read.
-/

namespace InkModel.Cgats

variable {α : Type} {t t' : Table α}

theorem Edit.field_run (t : Table α) (name : String) (type : FieldType) :
    (Edit.field name type).run t =
      match t.addField name type with
      | .ok t' => .ok (t'.fields.size - 1) t'
      | .error e => .error e t := by
  unfold Edit.field Table.addField
  by_cases empty : t.rows = #[]
  · by_cases known : (t.findField? name).isSome
    · simp [empty, known]
    · simp [empty, known]
  · simp [empty]

theorem Edit.row_run (t : Table α) (cells : Array (Cell α)) :
    (Edit.row cells).run t =
      match t.addSet cells with
      | .ok t' => .ok () t'
      | .error e => .error e t := by
  unfold Edit.row Table.addSet
  by_cases size : cells.size = t.fields.size
  · simp only [EStateM.run_bind, EStateM.run_get, ne_eq, size, not_true_eq_false, if_false]
    cases (t.fields.zip cells).find? fun pair => decide ¬pair.1.type = pair.2.type <;> rfl
  · simp [size]

namespace Call

def keyword? : Call α → Option (String × String)
  | keyword name value => some (name, value)
  | _ => none

/-- What an accepted call does; a new field answers its position. -/
inductive Accepted : Call α → Table α → Option ℕ → Table α → Prop
  | keyword (name value : String) {t : Table α} :
      Accepted (.keyword name value) t none (t.addKeyword name value)
  | field {name : String} {type : FieldType} {t t' : Table α}
      (added : t.addField name type = .ok t') :
      Accepted (.field name type) t (some (t'.fields.size - 1)) t'
  | row {cells : Array (Cell α)} {t t' : Table α} (added : t.addSet cells = .ok t') :
      Accepted (.row cells) t none t'

/-- A call is accepted and does what it says, or fails and does nothing. -/
theorem run_cases {c : Call α} {answer : Answer} (h : c.run t = (answer, t')) :
    (∃ position, answer = .ok position ∧ Accepted c t position t') ∨
      (∃ e, answer = .error e ∧ c.keyword? = none ∧ t' = t) := by
  cases c with
  | keyword name value =>
      cases h
      exact .inl ⟨none, rfl, .keyword name value⟩
  | field name type =>
      simp only [run, edit, EStateM.run_bind, Edit.field_run] at h
      cases added : t.addField name type with
      | ok t₁ =>
          rw [added] at h
          cases h
          exact .inl ⟨_, rfl, .field added⟩
      | error e =>
          rw [added] at h
          cases h
          exact .inr ⟨e, rfl, rfl, rfl⟩
  | row cells =>
      simp only [run, edit, EStateM.run_bind, Edit.row_run] at h
      cases added : t.addSet cells with
      | ok t₁ =>
          rw [added] at h
          cases h
          exact .inl ⟨none, rfl, .row added⟩
      | error e =>
          rw [added] at h
          cases h
          exact .inr ⟨e, rfl, rfl, rfl⟩

theorem run_error {c : Call α} {e : TableError} (h : c.run t = (.error e, t')) : t' = t := by
  obtain ⟨_, ok, -⟩ | ⟨_, -, -, same⟩ := run_cases h
  · cases ok
  · exact same

end Call

/-- Calls with their answers, the earliest first. -/
abbrev History (α : Type) := List (Call α × Answer)

namespace History

def keywords (h : History α) : List (String × String) := (h.map Prod.fst).filterMap Call.keyword?

theorem keywords_concat (h : History α) (call : Call α × Answer) :
    keywords (h ++ [call]) = h.keywords ++ call.1.keyword?.toList := by
  rw [keywords, List.map_append, List.filterMap_append]
  cases none : call.1.keyword? <;> simp [keywords, none]

def acceptedField? : Call α × Answer → Option Field
  | (.field name type, .ok _) => some ⟨name, type⟩
  | _ => none

def acceptedRow? : Call α × Answer → Option (Array (Cell α))
  | (.row cells, .ok _) => some cells
  | _ => none

end History

/-- What a history has made of a new table. -/
structure Grown (h : History α) (t : Table α) : Prop where
  wellFormed : t.WellFormed
  /-- A keyword stays where it first appeared, with the value that was set last. -/
  keywords : t.keywords = lastValues h.keywords
  fields : t.fields.toList = h.filterMap History.acceptedField?
  rows : t.rows.toList = h.filterMap History.acceptedRow?
  /-- A field is still found at the position that its call answered. -/
  position : ∀ name type answer, (Call.field name type, Except.ok answer) ∈ h →
    ∃ i, answer = some i ∧ t.findField? name = some i

namespace Grown

variable {h : History α}

theorem new (kind : String) : Grown [] ({ kind } : Table α) :=
  ⟨Table.wellFormed_new kind, rfl, rfl, rfl, by simp⟩

theorem findKeyword? (grown : Grown h t) (key : String) :
    t.findKeyword? key = h.keywords.reverse.lookup key := by
  rw [Table.findKeyword?, grown.keywords]
  exact find?_lastValues h.keywords key

theorem step (grown : Grown h t) {c : Call α} {answer : Answer} (call : c.run t = (answer, t')) :
    Grown (h ++ [(c, answer)]) t' := by
  obtain ⟨position, rfl, accepted⟩ | ⟨e, rfl, noKeyword, rfl⟩ := Call.run_cases call
  · cases accepted with
    | keyword name value =>
        refine ⟨grown.wellFormed.addKeyword name value, ?_, ?_, ?_, ?_⟩
        · rw [History.keywords_concat, Call.keyword?, Option.toList_some, lastValues_concat,
            ← grown.keywords]
          rfl
        · simp [Table.addKeyword, grown.fields, History.acceptedField?]
        · simp [Table.addKeyword, grown.rows, History.acceptedRow?]
        · intro name' type answer mem
          exact grown.position name' type answer (by simpa using mem)
    | @field name type _ _ added =>
        have wellFormed := grown.wellFormed.addField added
        have last := grown.wellFormed.findField?_addField added
        have others (name' : String) (i : ℕ) (found : t.findField? name' = some i) :=
          grown.wellFormed.findField?_kept added found
        obtain ⟨-, -, rfl⟩ := Table.addField_eq_ok_iff.mp added
        refine ⟨wellFormed, ?_, ?_, ?_, ?_⟩
        · simp [grown.keywords, History.keywords_concat, Call.keyword?]
        · simp [grown.fields, History.acceptedField?]
        · simp [grown.rows, History.acceptedRow?]
        · intro name' type' answer mem
          rcases List.mem_append.mp mem with before | own
          · obtain ⟨i, answered, found⟩ := grown.position name' type' answer before
            exact ⟨i, answered, others name' i found⟩
          · cases List.mem_singleton.mp own
            exact ⟨_, rfl, last⟩
    | row added =>
        have wellFormed := grown.wellFormed.addSet added
        obtain ⟨-, rfl⟩ := Table.addSet_eq_ok_iff.mp added
        refine ⟨wellFormed, ?_, ?_, ?_, ?_⟩
        · simp [grown.keywords, History.keywords_concat, Call.keyword?]
        · simp [grown.fields, History.acceptedField?]
        · simp [grown.rows, History.acceptedRow?]
        · intro name type answer mem
          exact grown.position name type answer (by simpa using mem)
  · have nothing : History.acceptedField? (c, .error e) = none ∧
        History.acceptedRow? (c, .error e) = none := by
      cases c <;> exact ⟨rfl, rfl⟩
    refine ⟨grown.wellFormed, ?_, ?_, ?_, ?_⟩
    · simp [grown.keywords, History.keywords_concat, noKeyword]
    · simp [grown.fields, nothing.1]
    · simp [grown.rows, nothing.2]
    · intro name type answer mem
      exact grown.position name type answer (by simpa using mem)

theorem runAll {calls : List (Call α)} : ∀ {h : History α} {t : Table α} {answers : List Answer},
    Grown h t → Call.runAll calls t = (answers, t') →
    Grown (h ++ calls.zip answers) t' ∧ answers.length = calls.length := by
  induction calls with
  | nil =>
      intro h t answers grown ran
      cases ran
      exact ⟨by simpa using grown, rfl⟩
  | cons c calls ih =>
      intro h t answers grown ran
      rw [Call.runAll] at ran
      obtain ⟨first, next, call⟩ : ∃ first next, c.run t = (first, next) := ⟨_, _, rfl⟩
      rw [call] at ran
      cases ran
      obtain ⟨grown', length⟩ := ih (grown.step call) rfl
      exact ⟨by simpa using grown', by simpa using length⟩

end Grown

/-- Whatever calls are made on a new table: it holds what the accepted calls said, a keyword has
the value that was set last, and a call that fails changes nothing. A table that was read from any
text or any bytes is as well formed. -/
theorem tables_wellFormed [Numeral α] :
    (∀ (kind : String) (calls : List (Call α)) (answers : List Answer) (t : Table α),
      Call.runAll calls { kind } = (answers, t) →
        answers.length = calls.length ∧ Grown (calls.zip answers) t ∧
        (∀ key, t.findKeyword? key = (calls.filterMap Call.keyword?).reverse.lookup key) ∧
        ∀ call e t', Call.run call t = (.error e, t') → t' = t) ∧
    (∀ (s : String) (f : File α), readText s = .ok f → ∀ t ∈ f, t.WellFormed) ∧
    ∀ (bytes : ByteArray) (f : File α), readBytes bytes = .ok f → ∀ t ∈ f, t.WellFormed := by
  have between : Phase.between.WellFormed := trivial
  refine ⟨fun kind calls answers t ran => ?_, fun _ _ => readText_wellFormed,
    fun _ _ => readFrom_wellFormed between (by simp)⟩
  obtain ⟨grown, length⟩ := (Grown.new kind).runAll ran
  refine ⟨length, grown, fun key => ?_, fun _ _ _ => Call.run_error⟩
  rw [grown.findKeyword?, History.keywords, List.nil_append, List.map_fst_zip length.ge]

/-- Calls of every kind, with a field that comes too late and a data set of the wrong type. -/
def mixedCalls : List (Call ℕ) :=
  [.field "ID" .text, .keyword "LAMP" "D50", .row #[.text "a"], .field "X" .real, .row #[.real 1],
    .keyword "LAMP" "A"]

def mixedAnswers : List Answer :=
  [.ok (some 0), .ok none, .ok none, .error (.fieldAfterData "X"), .error (.typeMismatch "ID"),
    .ok none]

def mixedTable : Table ℕ where
  kind := "CTI3"
  keywords := [("LAMP", "A")]
  fields := #[⟨"ID", .text⟩]
  rows := #[#[.text "a"]]

/-- A text of the same table. -/
def mixedText : String :=
  "CTI3\nLAMP A\nBEGIN_DATA_FORMAT\nID\nEND_DATA_FORMAT\nBEGIN_DATA\na\nEND_DATA"

attribute [local instance] Numeral.nat

theorem tables_wellFormed_mixedCalls :
    Call.runAll mixedCalls { kind := "CTI3" } = (mixedAnswers, mixedTable) ∧
      Grown (mixedCalls.zip mixedAnswers) mixedTable ∧
      readText mixedText = .ok [mixedTable] ∧ mixedTable.WellFormed := by
  obtain ⟨called, readable, -⟩ := tables_wellFormed (α := ℕ)
  have ran : Call.runAll mixedCalls { kind := "CTI3" } = (mixedAnswers, mixedTable) := by cbv
  have read : readText mixedText = .ok [mixedTable] := by cbv
  obtain ⟨-, grown, -, -⟩ := called "CTI3" mixedCalls mixedAnswers mixedTable ran
  exact ⟨ran, grown, read, readable _ _ read mixedTable (List.mem_singleton_self _)⟩

end InkModel.Cgats
