import InkModel.Cgats.Table
import InkModel.Cgats.Token

/-! # Reading tables

A table begins with its kind on a line of its own. Header lines follow: counts,
keywords, and the names of the fields between `BEGIN_DATA_FORMAT` and
`END_DATA_FORMAT`. Data sets stand between `BEGIN_DATA` and `END_DATA`, one on
a line. A field is numeric when all its values are numbers without quotes.
-/

namespace InkModel.Cgats

def keywordWord : String := "KEYWORD"

def fieldCountWord : String := "NUMBER_OF_FIELDS"

def setCountWord : String := "NUMBER_OF_SETS"

def beginFormatWord : String := "BEGIN_DATA_FORMAT"

def endFormatWord : String := "END_DATA_FORMAT"

def beginDataWord : String := "BEGIN_DATA"

def endDataWord : String := "END_DATA"

/-- Whether a word without quotes is `word`. -/
def Token.isBare (t : Token) (word : String) : Bool := !t.quoted && t.text == word

structure Draft where
  kind : String
  keywords : List (String × String) := []
  names : Array String := #[]
  rows : Array (Array Token) := #[]
  fieldCount : Option Nat := none
  setCount : Option Nat := none
  deriving Repr, DecidableEq

/-- Where the reader stands. -/
inductive Phase where
  | between
  | header (d : Draft)
  | format (d : Draft)
  | data (d : Draft)
  deriving Repr, DecidableEq

namespace Draft

/-- Adds names of fields up to the word that ends them; says whether that word
was met. -/
def addNames (d : Draft) : List Token → Except TableError (Draft × Bool)
  | [] => .ok (d, false)
  | t :: ts =>
    if t.isBare endFormatWord then .ok (d, true)
    else if d.names.contains t.text then .error (.duplicateField t.text)
    else { d with names := d.names.push t.text }.addNames ts

/-- Whether the cell in a column of a row is a number without quotes. -/
def isNumeral (α : Type) [Numeral α] (t : Token) : Bool :=
  !t.quoted && (Numeral.read? t.text : Option α).isSome

/-- The type of the field in a column: numeric when all its cells are. -/
def columnType (α : Type) [Numeral α] (d : Draft) (col : Nat) : FieldType :=
  if d.rows.all fun row => (row[col]?).all (isNumeral α) then .real else .text

def cellOf {α : Type} [Numeral α] (t : Token) (type : FieldType) : Cell α :=
  match type, (Numeral.read? t.text : Option α) with
  | .real, some x => .real x
  | _, _ => .text t.text

def finish {α : Type} [Numeral α] (d : Draft) : Except SyntaxError (Table α) :=
  if d.fieldCount.any (· ≠ d.names.size) then
    .error (.fieldCount (d.fieldCount.getD 0) d.names.size)
  else if d.setCount.any (· ≠ d.rows.size) then
    .error (.setCount (d.setCount.getD 0) d.rows.size)
  else
    let fields := d.names.mapIdx fun i name => (⟨name, d.columnType α i⟩ : Field)
    .ok {
      kind := d.kind
      keywords := d.keywords
      fields
      rows := d.rows.map fun row =>
        Array.zipWith (fun t (f : Field) => cellOf t f.type) row fields }

end Draft

/-- The count that the second word of a line states. -/
def countOf (head : Token) (rest : List Token) : Except SyntaxError Nat :=
  match (rest.head?).bind fun t => Decimal.readCount t.text with
  | some n => .ok n
  | none => .error (.invalidCount head.text)

/-- A header line of the words `head` and `rest`. -/
def headerStep (line : Nat) (d : Draft) (head : Token) (rest : List Token) :
    Except TableError Phase :=
  if head.text = keywordWord then .ok (.header d)
  else if head.text = fieldCountWord then
    match countOf head rest with
    | .ok n => .ok (.header { d with fieldCount := some n })
    | .error e => .error (.malformed line e)
  else if head.text = setCountWord then
    match countOf head rest with
    | .ok n => .ok (.header { d with setCount := some n })
    | .error e => .error (.malformed line e)
  else if head.text = beginFormatWord then
    match d.addNames rest with
    | .ok (d', true) => .ok (.header d')
    | .ok (d', false) => .ok (.format d')
    | .error e => .error e
  else if head.text = beginDataWord then
    if d.names.isEmpty then .error (.malformed line .dataBeforeFormat) else .ok (.data d)
  else
    let value := String.intercalate " " (rest.map Token.text)
    .ok (.header { d with keywords := setKey head.text value d.keywords })

/-- What a line of words does: the next phase, and the table that it finishes. -/
def lineStep {α : Type} [Numeral α] (line : Nat) (phase : Phase) (head : Token)
    (rest : List Token) : Except TableError (Phase × Option (Table α)) :=
  match phase with
  | .between => .ok (.header { kind := head.text }, none)
  | .header d => (headerStep line d head rest).map (·, none)
  | .format d =>
    match d.addNames (head :: rest) with
    | .ok (d', true) => .ok (.header d', none)
    | .ok (d', false) => .ok (.format d', none)
    | .error e => .error e
  | .data d =>
    if head.isBare endDataWord then
      match (d.finish : Except SyntaxError (Table α)) with
      | .ok t => .ok (.between, some t)
      | .error e => .error (.malformed line e)
    else if rest.length + 1 ≠ d.names.size then
      .error (.malformed line (.valueCount d.names.size (rest.length + 1)))
    else .ok (.data { d with rows := d.rows.push (head :: rest).toArray }, none)

/-- What the end of the text, after `line` lines, means in a phase. -/
def atEnd {α : Type} (line : Nat) (phase : Phase) (tables : Array (Table α)) :
    Except TableError (File α) :=
  match phase with
  | .between => if tables.isEmpty then .error .noTable else .ok tables.toList
  | .header d =>
    .error (.malformed line (if d.names.isEmpty then .noFormat else .unexpectedEnd))
  | _ => .error (.malformed line .unexpectedEnd)

/-- Reads the remaining lines, with `line` lines and `tables` behind. -/
def readFrom {α : Type} [Numeral α] (line : Nat) (phase : Phase) (tables : Array (Table α)) :
    List (Option (List Char)) → Except TableError (File α)
  | [] => atEnd line phase tables
  | none :: _ => .error (.file .invalidText)
  | some cs :: lines =>
    match tokenize cs with
    | none => .error (.malformed (line + 1) .unterminatedString)
    | some [] => readFrom (line + 1) phase tables lines
    | some (head :: rest) =>
      match lineStep (line + 1) phase head rest with
      | .error e => .error e
      | .ok (phase', none) => readFrom (line + 1) phase' tables lines
      | .ok (phase', some t) => readFrom (line + 1) phase' (tables.push t) lines

def readText {α : Type} [Numeral α] (s : String) : Except TableError (File α) :=
  readFrom 0 .between #[] ((textLines s).map some)

def readBytes {α : Type} [Numeral α] (bytes : ByteArray) : Except TableError (File α) :=
  readFrom 0 .between #[] (byteLines bytes)

end InkModel.Cgats
