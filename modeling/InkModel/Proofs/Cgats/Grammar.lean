import InkModel.Proofs.Cgats.Step
import InkModel.Proofs.Cgats.Table

/-! # The grammar of table files

A file is a sequence of blocks of lines, each of which is a table. A block has a line
with its kind, a header, the data sets, and a line that ends it.
-/

namespace InkModel.Cgats

variable {α : Type}

/-- A piece of the header of a block. -/
inductive HeaderItem where
  /-- A keyword is declared, which says nothing. -/
  | declaration
  | fieldCount (n : ℕ)
  | setCount (n : ℕ)
  | format (names : List String)
  | keyword (name value : String)

namespace HeaderItem

def names : HeaderItem → List String
  | format names => names
  | _ => []

def keyword? : HeaderItem → Option (String × String)
  | keyword name value => some (name, value)
  | _ => none

def fieldCount? : HeaderItem → Option ℕ
  | fieldCount n => some n
  | _ => none

def setCount? : HeaderItem → Option ℕ
  | setCount n => some n
  | _ => none

end HeaderItem

/-- Whether a format section ends on the last of some lines. -/
inductive IsSection : List (List Token) → Prop
  | last {ts : List Token} (ends : endsSection ts = true) : IsSection [ts]
  | cons {ts : List Token} {lines : List (List Token)} (inside : endsSection ts = false)
      (others : IsSection lines) : IsSection (ts :: lines)

/-- Whether a piece of a header is written in these lines of words. -/
inductive HeaderItem.Written : HeaderItem → List (List Token) → Prop
  | declaration {head : Token} {rest : List Token} (word : head.text = keywordWord) :
      Written .declaration [head :: rest]
  | fieldCount {head second : Token} {rest : List Token} {n : ℕ}
      (word : head.text = fieldCountWord) (count : Decimal.readCount second.text = some n) :
      Written (.fieldCount n) [head :: second :: rest]
  | setCount {head second : Token} {rest : List Token} {n : ℕ}
      (word : head.text = setCountWord) (count : Decimal.readCount second.text = some n) :
      Written (.setCount n) [head :: second :: rest]
  | format {head : Token} {rest : List Token} {lines : List (List Token)}
      (word : head.text = beginFormatWord) (ends : IsSection (rest :: lines))
      (nonblank : ∀ ts ∈ lines, ts ≠ []) :
      Written (.format (sectionNames (rest :: lines).flatten)) ((head :: rest) :: lines)
  | keyword {head : Token} {rest : List Token} (free : head.text ∉ reservedWords) :
      Written (.keyword head.text (String.intercalate " " (rest.map Token.text))) [head :: rest]

/-- What the lines of a table say. -/
structure Block where
  kind : String
  header : List HeaderItem
  rows : List (List Token)

namespace Block

def names (b : Block) : List String := b.header.flatMap HeaderItem.names

def keywords (b : Block) : List (String × String) := b.header.filterMap HeaderItem.keyword?

/-- The last count of fields that is stated. -/
def fieldCount? (b : Block) : Option ℕ := (b.header.filterMap HeaderItem.fieldCount?).getLast?

/-- The last count of data sets that is stated. -/
def setCount? (b : Block) : Option ℕ := (b.header.filterMap HeaderItem.setCount?).getLast?

/-- Whether a block is written in these lines of words. -/
inductive Written (b : Block) : List (List Token) → Prop
  | lines {kind begins ends : Token} {kindRest beginsRest endsRest : List Token}
      {header : List (List (List Token))} (named : kind.text = b.kind)
      (items : List.Forall₂ HeaderItem.Written b.header header)
      (data : begins.text = beginDataWord) (last : ends.isBare endDataWord = true) :
      Written b ((kind :: kindRest) ::
        (header.flatten ++ (begins :: beginsRest) :: (b.rows ++ [ends :: endsRest])))

/-- Whether a block is a table. -/
structure Valid (b : Block) : Prop where
  named : b.names ≠ []
  distinct : b.names.Nodup
  rowLength : ∀ row ∈ b.rows, row.length = b.names.length
  rowHead : ∀ row ∈ b.rows, ∀ t, row.head? = some t → t.isBare endDataWord = false
  fieldCount : ∀ n, b.fieldCount? = some n → n = b.names.length
  setCount : ∀ n, b.setCount? = some n → n = b.rows.length

end Block

/-- Names with their last values, in the order in which they first appear. -/
def lastValues (pairs : List (String × String)) : List (String × String) :=
  (pairs.map Prod.fst).eraseDups.map fun name => (name, (pairs.reverse.lookup name).getD "")

section Meaning

variable [Numeral α]

/-- The number of a word without quotes. -/
def Token.number? (t : Token) : Option α := if t.quoted then none else Numeral.read? t.text

namespace Block

/-- Whether all cells of a column are numbers. -/
def isNumeric (α : Type) [Numeral α] (b : Block) (col : ℕ) : Bool :=
  b.rows.all fun row => (row[col]?).all fun t => (t.number? : Option α).isSome

def cell (b : Block) (col : ℕ) (t : Token) : Cell α :=
  match if b.isNumeric α col then t.number? else none with
  | some x => .real x
  | none => .text t.text

/-- The table of a block. -/
def table (b : Block) : Table α where
  kind := b.kind
  keywords := lastValues b.keywords
  fields := (b.names.mapIdx fun i name =>
    ⟨name, if b.isNumeric α i then .real else .text⟩).toArray
  rows := (b.rows.map fun row => (row.mapIdx b.cell).toArray).toArray

end Block

end Meaning

/-! What the reader collects. -/

theorem eraseDups_concat (xs : List String) (x : String) :
    (xs ++ [x]).eraseDups = if x ∈ xs then xs.eraseDups else xs.eraseDups ++ [x] := by
  rw [List.eraseDups_append]
  by_cases known : x ∈ xs <;> simp [List.removeAll, List.eraseDups_cons, known]

theorem nodup_eraseDups (xs : List String) : xs.eraseDups.Nodup := by
  induction xs using List.reverseRecOn with
  | nil => exact List.nodup_nil
  | append_singleton xs x ih =>
      rw [eraseDups_concat]
      split
      · exact ih
      · rename_i new
        exact ih.append (List.nodup_singleton x) (by simpa [List.mem_eraseDups] using new)

theorem setKey_map {names : List String} (nodup : names.Nodup) {name : String}
    (known : name ∈ names) (value : String) (g : String → String) :
    setKey name value (names.map fun m => (m, g m)) =
      names.map fun m => (m, if m = name then value else g m) := by
  induction names with
  | nil => cases known
  | cons m names ih =>
      obtain ⟨fresh, nodup⟩ := List.nodup_cons.mp nodup
      rw [List.map_cons, List.map_cons, setKey]
      by_cases own : m = name
      · subst own
        rw [if_pos rfl, if_pos rfl]
        refine congrArg _ (List.map_congr_left fun m' mem => ?_)
        rw [if_neg (by rintro rfl; exact fresh mem)]
      · have later : name ∈ names := (List.mem_cons.mp known).resolve_left (Ne.symm own)
        rw [if_neg own, if_neg own, ih nodup later]

/-- Keywords that are set in turn end with their last values. -/
theorem foldl_setKey (pairs : List (String × String)) :
    pairs.foldl (fun known pair => setKey pair.1 pair.2 known) [] = lastValues pairs := by
  induction pairs using List.reverseRecOn with
  | nil => rfl
  | append_singleton pairs pair ih =>
      have last (m : String) : ((pairs ++ [pair]).reverse.lookup m).getD "" =
          if m = pair.1 then pair.2 else (pairs.reverse.lookup m).getD "" := by
        rw [List.reverse_append, List.reverse_singleton, List.singleton_append, List.lookup_cons]
        by_cases own : m = pair.1
        · simp [own]
        · rw [beq_false_of_ne own, if_neg own]
      rw [List.foldl_append, List.foldl_cons, List.foldl_nil, ih, lastValues, lastValues,
        List.map_append, List.map_singleton, eraseDups_concat]
      simp only [last]
      split
      · rename_i known
        exact setKey_map (nodup_eraseDups _) (List.mem_eraseDups.mpr known) _ _
      · rename_i new
        have fresh : pair.1 ∉ (pairs.map Prod.fst).eraseDups := by rwa [List.mem_eraseDups]
        rw [setKey_new (by simpa [Function.comp_def] using fresh), List.map_append,
          List.map_singleton, if_pos rfl]
        congr 1
        refine List.map_congr_left fun m mem => ?_
        rw [if_neg (by rintro rfl; exact fresh mem)]

theorem lastValues_concat (pairs : List (String × String)) (pair : String × String) :
    lastValues (pairs ++ [pair]) = setKey pair.1 pair.2 (lastValues pairs) := by
  rw [← foldl_setKey, ← foldl_setKey, List.foldl_append]
  rfl

theorem find?_lastValues (pairs : List (String × String)) (key : String) :
    ((lastValues pairs).find? fun (k, _) => k == key).map Prod.snd = pairs.reverse.lookup key := by
  induction pairs using List.reverseRecOn with
  | nil => rfl
  | append_singleton pairs pair ih =>
      rw [lastValues_concat, find?_setKey, ih, List.reverse_append, List.reverse_singleton,
        List.singleton_append, List.lookup_cons]
      by_cases own : key = pair.1
      · simp [own]
      · rw [if_neg own, beq_false_of_ne own]

theorem mem_lastValues {pairs : List (String × String)} {k : String × String}
    (mem : k ∈ lastValues pairs) : k ∈ pairs := by
  induction pairs using List.reverseRecOn with
  | nil => cases mem
  | append_singleton pairs pair ih =>
      rw [lastValues_concat] at mem
      rcases mem_setKey mem with rfl | old
      · exact List.mem_append_right _ (List.mem_singleton_self _)
      · exact List.mem_append_left _ (ih old)

namespace Draft

/-- A draft with one more piece of the header. -/
def add (d : Draft) : HeaderItem → Draft
  | .declaration => d
  | .fieldCount n => { d with fieldCount := some n }
  | .setCount n => { d with setCount := some n }
  | .format names => { d with names := d.names ++ names.toArray }
  | .keyword name value => { d with keywords := setKey name value d.keywords }

theorem addNames_eq_ok_iff_add {d d' : Draft} (nodup : d.names.toList.Nodup) {ts : List Token}
    {ended : Bool} : d.addNames ts = .ok (d', ended) ↔
      d' = d.add (.format (sectionNames ts)) ∧ d'.names.toList.Nodup ∧ ended = endsSection ts := by
  rw [addNames_eq_ok_iff nodup]
  constructor
  · rintro ⟨distinct, rfl, ends⟩
    exact ⟨rfl, by simpa using distinct, ends⟩
  · rintro ⟨rfl, distinct, ends⟩
    exact ⟨by simpa [add] using distinct, rfl, ends⟩

/-- The names of a section may come line by line. -/
theorem add_section (d : Draft) {ts : List Token} (inside : endsSection ts = false)
    (us : List Token) : d.add (.format (sectionNames (ts ++ us))) =
      (d.add (.format (sectionNames ts))).add (.format (sectionNames us)) := by
  simp [add, sectionNames_append inside]

theorem foldl_add (items : List HeaderItem) (d : Draft) :
    items.foldl add d =
      { d with
        keywords := (items.filterMap HeaderItem.keyword?).foldl
          (fun known pair => setKey pair.1 pair.2 known) d.keywords
        names := d.names ++ (items.flatMap HeaderItem.names).toArray
        fieldCount := (items.filterMap HeaderItem.fieldCount?).getLast?.or d.fieldCount
        setCount := (items.filterMap HeaderItem.setCount?).getLast?.or d.setCount } := by
  induction items generalizing d with
  | nil => simp
  | cons item items ih =>
      rw [List.foldl_cons, ih]
      cases item <;> simp [add, List.filterMap_cons, HeaderItem.names, HeaderItem.keyword?,
        HeaderItem.fieldCount?, HeaderItem.setCount?, List.getLast?_cons]

theorem nodup_of_add {d : Draft} {item : HeaderItem} (h : (d.add item).names.toList.Nodup) :
    d.names.toList.Nodup := by
  cases item with
  | format names =>
      rw [add, Array.toList_append] at h
      exact (List.nodup_append.mp h).1
  | _ => exact h

end Draft

end InkModel.Cgats
