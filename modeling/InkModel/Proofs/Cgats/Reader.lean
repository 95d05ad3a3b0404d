import InkModel.Proofs.Cgats.Step
import InkModel.Proofs.Cgats.Table

/-! # What the reader builds

The reader keeps what all operations on tables keep, so everything that can be
had of the library is well formed: tables that are built up and tables that are
read.
-/

namespace InkModel.Cgats

variable {α : Type} [Numeral α]

namespace Draft

/-- Distinct names, and as many words in each data set as there are fields. -/
structure WellFormed (d : Draft) : Prop where
  keywords : (d.keywords.map Prod.fst).Nodup
  names : d.names.toList.Nodup
  rows : ∀ row ∈ d.rows, row.size = d.names.size

variable {d d' : Draft}

theorem wellFormed_new (kind : String) : WellFormed { kind } :=
  ⟨List.nodup_nil, List.nodup_nil, by simp⟩

/-- Names are added before any data sets. -/
theorem WellFormed.addNames {ts : List Token} {ended : Bool} (h : d.WellFormed)
    (noRows : d.rows = #[]) (added : d.addNames ts = .ok (d', ended)) :
    d'.WellFormed ∧ d'.rows = #[] := by
  obtain ⟨nodup, rfl, -⟩ := (addNames_eq_ok_iff h.names).mp added
  exact ⟨⟨h.keywords, by simpa using nodup, by simp [noRows]⟩, noRows⟩

theorem cellOf_type {t : Token} {type : FieldType}
    (numeral : type = .real → isNumeral α t = true) :
    (cellOf t type : Cell α).type = type := by
  cases type with
  | text =>
      rw [cellOf]
      · rfl
      · rintro x ⟨⟩
  | real =>
      obtain ⟨-, some⟩ := Bool.and_eq_true_iff.mp (numeral rfl)
      obtain ⟨x, hx⟩ := Option.isSome_iff_exists.mp some
      unfold cellOf
      rw [hx]
      rfl

theorem isNumeral_of_columnType {col : Nat} (h : d.columnType α col = .real)
    {row : Array Token} (mem : row ∈ d.rows) (hc : col < row.size) :
    isNumeral α row[col] = true := by
  rw [columnType] at h
  split at h
  · rename_i numbers
    have := (Array.all_eq_true_iff_forall_mem.mp numbers) row mem
    rwa [Array.getElem?_eq_getElem hc] at this
  · cases h

theorem WellFormed.finish (h : d.WellFormed) {t : Table α} (done : d.finish = .ok t) :
    t.WellFormed := by
  rw [Draft.finish] at done
  split at done
  · cases done
  split at done
  · cases done
  cases done
  refine ⟨h.keywords, ?_, fun cells mem => ?_⟩
  · have names : (d.names.mapIdx fun i name =>
        (⟨name, d.columnType α i⟩ : Field)).toList.map Field.name = d.names.toList := by
      apply List.ext_getElem (by simp)
      intro i h₁ h₂
      simp
    rw [names]
    exact h.names
  · obtain ⟨row, old, rfl⟩ := Array.mem_map.mp mem
    have size := h.rows row old
    apply Array.ext (by simp [size])
    intro i h₁ h₂
    have hi : i < row.size := by simpa [size] using h₂
    simp only [Array.getElem_map, Array.getElem_zipWith, Array.getElem_mapIdx]
    exact cellOf_type fun real => isNumeral_of_columnType real old hi

end Draft

/-- What holds of every phase: data sets come last. -/
def Phase.WellFormed : Phase → Prop
  | .between => True
  | .header d => d.WellFormed ∧ d.rows = #[]
  | .format d => d.WellFormed ∧ d.rows = #[]
  | .data d => d.WellFormed

theorem HeaderStep.wellFormed {d : Draft} {head : Token} {rest : List Token} {phase : Phase}
    (step : HeaderStep d head rest phase) (h : d.WellFormed) (noRows : d.rows = #[]) :
    phase.WellFormed := by
  cases step with
  | declaration => exact ⟨h, noRows⟩
  | fieldCount => exact ⟨⟨h.keywords, h.names, h.rows⟩, noRows⟩
  | setCount => exact ⟨⟨h.keywords, h.names, h.rows⟩, noRows⟩
  | format word names => exact h.addNames noRows names
  | openFormat word names => exact h.addNames noRows names
  | data => exact h
  | keyword => exact ⟨⟨setKey_nodup h.keywords _ _, h.names, h.rows⟩, noRows⟩

theorem LineStep.wellFormed {phase phase' : Phase} {head : Token} {rest : List Token}
    {found : Option (Table α)} (step : LineStep phase head rest phase' found)
    (h : phase.WellFormed) : phase'.WellFormed ∧ ∀ t, found = some t → t.WellFormed := by
  cases step with
  | kind => exact ⟨⟨Draft.wellFormed_new _, rfl⟩, by rintro t ⟨⟩⟩
  | header step => exact ⟨step.wellFormed h.1 h.2, by rintro t ⟨⟩⟩
  | names names => exact ⟨h.1.addNames h.2 names, by rintro t ⟨⟩⟩
  | lastNames names => exact ⟨h.1.addNames h.2 names, by rintro t ⟨⟩⟩
  | @row d head rest inside size =>
      refine ⟨⟨h.keywords, h.names, fun row mem => ?_⟩, by rintro t ⟨⟩⟩
      rcases Array.mem_push.mp mem with old | rfl
      · exact h.rows row old
      · simpa using size
  | finish ends finished =>
      refine ⟨trivial, ?_⟩
      rintro t ⟨⟩
      exact Draft.WellFormed.finish h finished

theorem readFrom_wellFormed {lines : List (Option (List Char))} {line : Nat} {phase : Phase}
    {tables : Array (Table α)} {f : File α} (h : phase.WellFormed)
    (built : ∀ t ∈ tables, t.WellFormed) (read : readFrom line phase tables lines = .ok f) :
    ∀ t ∈ f, t.WellFormed := by
  induction lines generalizing line phase tables with
  | nil =>
      rw [readFrom, atEnd.eq_def] at read
      split at read
      · split at read
        · cases read
        · cases read
          simpa using built
      · cases read
      · cases read
  | cons text lines ih =>
      cases text with
      | none => cases read
      | some cs =>
          rw [readFrom] at read
          split at read
          · cases read
          · exact ih h built read
          · split at read
            · cases read
            · exact ih ((lineStep_eq_ok_iff.mp ‹_›).wellFormed h).1 built read
            · have stepped := (lineStep_eq_ok_iff.mp ‹_›).wellFormed h
              refine ih stepped.1 (fun t mem => ?_) read
              rcases Array.mem_push.mp mem with old | rfl
              · exact built t old
              · exact stepped.2 _ rfl

theorem readText_wellFormed {s : String} {f : File α} (read : readText s = .ok f) :
    ∀ t ∈ f, t.WellFormed := by
  have start : Phase.between.WellFormed := trivial
  exact readFrom_wellFormed start (by simp) read

/-- The tables that can be had: a table begins with its kind, grows by keywords,
fields and data sets in any order that is accepted, or is read. -/
inductive Table.Built : Table α → Prop
  | new (kind : String) : Built { kind }
  | keyword {t : Table α} (h : Built t) (name value : String) : Built (t.addKeyword name value)
  | field {t t' : Table α} (h : Built t) (name : String) (type : FieldType)
      (added : t.addField name type = .ok t') : Built t'
  | set {t t' : Table α} (h : Built t) (cells : Array (Cell α))
      (added : t.addSet cells = .ok t') : Built t'
  | read {s : String} {f : File α} (h : readText s = .ok f) {t : Table α} (mem : t ∈ f) : Built t

theorem Table.Built.wellFormed {t : Table α} (h : t.Built) : t.WellFormed := by
  induction h with
  | new kind => exact wellFormed_new kind
  | keyword _ name value ih => exact ih.addKeyword name value
  | field _ _ _ added ih => exact ih.addField added
  | set _ _ added ih => exact ih.addSet added
  | read h mem => exact readText_wellFormed h _ mem

end InkModel.Cgats
