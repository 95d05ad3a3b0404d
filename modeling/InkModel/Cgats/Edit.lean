import InkModel.Cgats.Table

/-! # Tables in place

The calls that a table grows by, one after another on the same table. A call that fails keeps
what it has changed by then.
-/

namespace InkModel.Cgats

/-- A computation on a table in place, which can fail. -/
abbrev Edit (α : Type) := EStateM TableError (Table α)

namespace Edit

variable {α : Type}

def keyword (name value : String) : Edit α Unit :=
  modify fun t => t.addKeyword name value

/-- Adds a field and answers its position. -/
def field (name : String) (type : FieldType) : Edit α Nat := do
  if !(← get).rows.isEmpty then throw (.fieldAfterData name)
  if ((← get).findField? name).isSome then throw (.duplicateField name)
  modify fun t => { t with fields := t.fields.push ⟨name, type⟩ }
  return (← get).fields.size - 1

def row (cells : Array (Cell α)) : Edit α Unit := do
  let fields := (← get).fields
  if cells.size ≠ fields.size then throw (.setLength fields.size cells.size)
  match (Array.zip fields cells).find? fun (f, c) => f.type ≠ c.type with
  | some (f, _) => throw (.typeMismatch f.name)
  | none => modify fun t => { t with rows := t.rows.push cells }

end Edit

inductive Call (α : Type) where
  | keyword (name value : String)
  | field (name : String) (type : FieldType)
  | row (cells : Array (Cell α))
  deriving Repr, DecidableEq

/-- What a call answers: a new field its position, an error when the call failed. -/
abbrev Answer := Except TableError (Option Nat)

namespace Call

variable {α : Type}

def edit : Call α → Edit α (Option Nat)
  | keyword name value => do
    Edit.keyword name value
    return none
  | field name type => do return some (← Edit.field name type)
  | row cells => do
    Edit.row cells
    return none

/-- What a call answers on a table, and the table behind it. -/
def run (c : Call α) (t : Table α) : Answer × Table α :=
  match c.edit.run t with
  | .ok answer t' => (.ok answer, t')
  | .error e t' => (.error e, t')

/-- The answers to calls in turn, whether they fail or not, and the table behind them. -/
def runAll : List (Call α) → Table α → List Answer × Table α
  | [], t => ([], t)
  | c :: calls, t =>
    let first := c.run t
    let others := runAll calls first.2
    (first.1 :: others.1, others.2)

end Call

end InkModel.Cgats
