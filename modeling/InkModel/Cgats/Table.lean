import InkModel.Decimal.Numeral

/-! # Tables of measurements and parameters

A CGATS file is a list of tables. A table has a kind, keywords with values,
named and typed fields, and data sets with one value for each field.
-/

namespace InkModel.Cgats

inductive FieldType where
  | real
  | text
  deriving Repr, DecidableEq

structure Field where
  /-- The name, such as `XYZ_X`. -/
  name : String
  type : FieldType
  deriving Repr, DecidableEq

inductive Cell (α : Type) where
  | real (value : α)
  | text (value : String)
  deriving Repr, DecidableEq

namespace Cell

variable {α : Type}

def type : Cell α → FieldType
  | real _ => .real
  | text _ => .text

def asReal? : Cell α → Option α
  | real x => some x
  | text _ => none

def asText? : Cell α → Option String
  | real _ => none
  | text s => some s

end Cell

inductive SyntaxError where
  /-- A quote has no partner on its line. -/
  | unterminatedString
  /-- A count is missing or is no natural number. -/
  | invalidCount (keyword : String)
  /-- Data sets begin before any field is named. -/
  | dataBeforeFormat
  /-- A data set has the wrong number of values. -/
  | valueCount (expected found : Nat)
  | fieldCount (stated found : Nat)
  /-- The stated number of data sets is wrong. -/
  | setCount (stated found : Nat)
  /-- The file ends before a table has named a field. -/
  | noFormat
  | unexpectedEnd
  deriving Repr, DecidableEq

inductive FileError where
  /-- The system refuses, for a reason with a number. -/
  | refused (reason : String) (number : Nat)
  /-- The bytes are not the encoding of a text. -/
  | invalidText
  deriving Repr, DecidableEq

/-- There is no such file or directory. -/
def FileError.missing : FileError := .refused "No such file or directory" 2

def FileError.notFolder : FileError := .refused "Not a directory" 20

def FileError.isFolder : FileError := .refused "Is a directory" 21

inductive TableError where
  /-- The text is malformed at a line, counted from 1. -/
  | malformed (line : Nat) (cause : SyntaxError)
  /-- There is no table. -/
  | noTable
  | duplicateField (name : String)
  | fieldAfterData (name : String)
  /-- A data set has the wrong number of values. -/
  | setLength (expected actual : Nat)
  /-- A value has not the type of its field. -/
  | typeMismatch (name : String)
  | file (cause : FileError)
  deriving Repr, DecidableEq

def SyntaxError.message : SyntaxError → String
  | unterminatedString => "unterminated string"
  | invalidCount keyword => "invalid " ++ keyword
  | dataBeforeFormat => "BEGIN_DATA before data format"
  | valueCount expected found =>
    "expected " ++ expected.repr ++ " values, found " ++ found.repr
  | fieldCount stated found =>
    "NUMBER_OF_FIELDS is " ++ stated.repr ++ " but " ++ found.repr ++ " fields declared"
  | setCount stated found =>
    "NUMBER_OF_SETS is " ++ stated.repr ++ " but " ++ found.repr ++ " sets found"
  | noFormat => "table has no data format"
  | unexpectedEnd => "unexpected end of file"

def FileError.message : FileError → String
  | refused reason number => reason ++ " (os error " ++ number.repr ++ ")"
  | invalidText => "stream did not contain valid UTF-8"

def TableError.message : TableError → String
  | malformed line cause => "line " ++ line.repr ++ ": " ++ cause.message
  | noTable => "no table found"
  | duplicateField name => "duplicate field: " ++ name
  | fieldAfterData name => "cannot add field " ++ name ++ " to a table that already has data"
  | setLength expected actual =>
    "set has " ++ actual.repr ++ " values, table has " ++ expected.repr ++ " fields"
  | typeMismatch name => "value for field " ++ name ++ " has the wrong type"
  | file cause => "I/O error: " ++ cause.message

/-- The wording of a table error, followed by the wording of its cause. -/
def TableError.chain : TableError → List String
  | file cause => [(TableError.file cause).message, cause.message]
  | e => [e.message]

structure Table (α : Type) where
  kind : String
  /-- Keywords with their values, in the order of their first appearance. -/
  keywords : List (String × String) := []
  fields : Array Field := #[]
  rows : Array (Array (Cell α)) := #[]
  deriving Repr, DecidableEq

/-- A file: its tables in order. -/
abbrev File (α : Type) := List (Table α)

/-- Sets the value of a key in a list of pairs; a new key goes to the end. -/
def setKey (name value : String) : List (String × String) → List (String × String)
  | [] => [(name, value)]
  | (k, v) :: rest => if k = name then (k, value) :: rest else (k, v) :: setKey name value rest

namespace Table

variable {α : Type}

/-- Sets a keyword; a new one goes to the end. -/
def addKeyword (t : Table α) (name value : String) : Table α :=
  { t with keywords := setKey name value t.keywords }

/-- Sets a keyword when there is a value. -/
def addKeyword? (t : Table α) (name : String) (value : Option String) : Table α :=
  match value with
  | some v => t.addKeyword name v
  | none => t

def findKeyword? (t : Table α) (name : String) : Option String :=
  (t.keywords.find? fun (k, _) => k == name).map (·.2)

def findField? (t : Table α) (name : String) : Option Nat :=
  t.fields.findIdx? fun f => f.name == name

/-- Adds the positions of `count` more fields to `cols`; field `i` of all has
the name `name i`. The error is the first name that no field has. -/
def findFieldsFrom (t : Table α) (name : Nat → String) (cols : Array Nat) :
    (count : Nat) → Except String (List Nat)
  | 0 => .ok cols.toList
  | count + 1 =>
    match t.findField? (name cols.size) with
    | none => .error (name cols.size)
    | some c => t.findFieldsFrom name (cols.push c) count

def addField (t : Table α) (name : String) (type : FieldType) : Except TableError (Table α) :=
  if !t.rows.isEmpty then .error (.fieldAfterData name)
  else if (t.findField? name).isSome then .error (.duplicateField name)
  else .ok { t with fields := t.fields.push ⟨name, type⟩ }

def addFields (t : Table α) (type : FieldType) : List String → Except TableError (Table α)
  | [] => .ok t
  | name :: names =>
    match t.addField name type with
    | .error e => .error e
    | .ok t' => t'.addFields type names

def addSet (t : Table α) (cells : Array (Cell α)) : Except TableError (Table α) :=
  if cells.size ≠ t.fields.size then .error (.setLength t.fields.size cells.size)
  else
    match (Array.zip t.fields cells).find? fun (f, c) => f.type ≠ c.type with
    | some (f, _) => .error (.typeMismatch f.name)
    | none => .ok { t with rows := t.rows.push cells }

def addSets (t : Table α) : List (Array (Cell α)) → Except TableError (Table α)
  | [] => .ok t
  | cells :: rest =>
    match t.addSet cells with
    | .error e => .error e
    | .ok t' => t'.addSets rest

def size (t : Table α) : Nat := t.rows.size

def cell? (t : Table α) (row col : Nat) : Option (Cell α) :=
  (t.rows[row]?).bind fun cells => cells[col]?

def real? (t : Table α) (row col : Nat) : Option α := (t.cell? row col).bind Cell.asReal?

def text? (t : Table α) (row col : Nat) : Option String := (t.cell? row col).bind Cell.asText?

end Table

end InkModel.Cgats
