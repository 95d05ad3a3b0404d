import InkModel.Cgats.Reader

/-! # Writing tables

Numbers are written so that they read back, texts in quotes. Keywords outside
the standard set are declared before they are given a value.
-/

namespace InkModel.Cgats

/-- Keywords that need no declaration. -/
def standardKeywords : List String :=
  ["DESCRIPTOR", "ORIGINATOR", "CREATED", "MANUFACTURER", "PROD_DATE", "SERIAL",
   "MATERIAL", "INSTRUMENTATION", "MEASUREMENT_SOURCE", "PRINT_CONDITIONS"]

def quoted (s : String) : String := "\"" ++ s ++ "\""

def keywordLines (name value : String) : List String :=
  let line := name ++ " " ++ quoted value
  if standardKeywords.contains name then [line]
  else [keywordWord ++ " " ++ quoted name, line]

variable {α : Type} [Numeral α]

def Cell.render : Cell α → String
  | .real x => Numeral.text x
  | .text s => quoted s

def Table.lines (t : Table α) : List String :=
  [t.kind, ""]
    ++ t.keywords.flatMap (fun (name, value) => keywordLines name value)
    ++ ["", fieldCountWord ++ " " ++ t.fields.size.repr, beginFormatWord,
        String.intercalate " " (t.fields.toList.map Field.name), endFormatWord, "",
        setCountWord ++ " " ++ t.rows.size.repr, beginDataWord]
    ++ t.rows.toList.map (fun row => String.intercalate " " (row.toList.map Cell.render))
    ++ [endDataWord]

/-- The lines of a file: its tables, with an empty line between them. -/
def fileLines : File α → List String
  | [] => []
  | [t] => t.lines
  | t :: ts => t.lines ++ "" :: fileLines ts

/-- The text of a file; every line ends with a line feed. -/
def render (f : File α) : String := String.join ((fileLines f).map (· ++ "\n"))

end InkModel.Cgats
