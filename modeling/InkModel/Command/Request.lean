import InkModel.Command.Syntax
import InkModel.Decimal.Reader

/-! # Requests

What a command line asks for. The first word that is no option names the
command; the options for verbosity and for threads may stand on either side of
it.
-/

namespace InkModel.Command

structure FitRequest where
  input : String
  output : String
  quality : Nat
  /-- Ink limit in percent. -/
  limit : Option Float
  shaped : Bool
  spectral : Bool
  lab : Bool
  tuning : Option String
  /-- Share of its error that a pass must gain for a band to go on. -/
  earlyExit : Option Float
  verbose : Bool

structure LookupRequest where
  model : String
  /-- Device values in percent. -/
  values : List Float
  lab : Bool
  spectral : Bool
  illuminant : Option String

structure GamutRequest where
  model : String
  output : String
  /-- Detail of the sampling; smaller is finer. -/
  detail : Float
  /-- Whether the bounds of the gamut are shown. -/
  verbose : Bool

inductive Request where
  | fit (r : FitRequest)
  | lookup (r : LookupRequest)
  | info (models : List String)
  | gamut (r : GamutRequest)
  | verify (model input : String)

/-- Whether a text can be the name of a file. -/
def isPath (s : String) : Bool := !s.isEmpty

def isNumber (s : String) : Bool := (Decimal.readFloat s).isSome

def isCount (s : String) : Bool := (Decimal.readCount s).isSome

/-- Levels are below this bound. -/
def levelBound : Nat := 256

def isLevel (s : String) : Bool := (Decimal.readCount s).any (· < levelBound)

def commonOptions : List OptionForm :=
  [⟨"verbose", some 'v', .counted⟩, ⟨"threads", some 'j', .value isCount⟩,
   ⟨"help", some 'h', .help⟩]

def frontForm : Form := ⟨commonOptions ++ [⟨"version", some 'V', .version⟩], []⟩

def pathPlace : OperandForm := ⟨isPath, false, false⟩

inductive Verb where
  | fit
  | lookup
  | info
  | gamut
  | verify
  deriving Repr, DecidableEq

namespace Verb

def all : List Verb := [fit, lookup, info, gamut, verify]

def names : Verb → List String
  | fit => ["fit"]
  | lookup => ["lookup", "l"]
  | info => ["info", "i"]
  | gamut => ["gamut"]
  | verify => ["verify"]

def ofName? (s : String) : Option Verb := all.find? fun v => v.names.contains s

/-- The options of a command, without the common ones. -/
def options : Verb → List OptionForm
  | fit =>
    [⟨"output", some 'o', .value isPath⟩, ⟨"quality", some 'q', .value isLevel⟩,
     ⟨"limit", some 'l', .value isNumber⟩, ⟨"no-shape", none, .flag⟩,
     ⟨"spectral", none, .flag⟩, ⟨"lab", none, .flag⟩, ⟨"tuning", none, .value isPath⟩,
     ⟨"early-exit", none, .value isNumber⟩]
  | lookup =>
    [⟨"lab", none, .flag⟩, ⟨"spectral", none, .flag⟩,
     ⟨"illuminant", none, .value fun _ => true⟩]
  | info => []
  | gamut =>
    [⟨"output", some 'o', .value isPath⟩, ⟨"detail", some 'd', .value isNumber⟩]
  | verify => []

def operands : Verb → List OperandForm
  | fit => [pathPlace]
  | lookup => [pathPlace, ⟨isNumber, true, true⟩]
  | info => [⟨isPath, false, true⟩]
  | gamut => [pathPlace]
  | verify => [pathPlace, pathPlace]

def form (v : Verb) : Form := ⟨v.options ++ commonOptions, v.operands⟩

end Verb

def Given.number? (g : Given) (name : String) : Option Float :=
  (g.value? name).bind Decimal.readFloat

/-- The level of quality when none is given. -/
def usualQuality : Nat := 1

/-- The detail of a gamut when none is given. -/
def usualDetail : Float := 10

/-- The request of a command with what was given; none when something that it
needs is not there. -/
def Request.ofGiven (v : Verb) (verbose : Bool) (g : Given) : Option Request :=
  match v, g.operands.toList with
  | .fit, [input] =>
    (g.value? "output").map fun output => .fit {
      input, output, verbose
      quality := ((g.value? "quality").bind Decimal.readCount).getD usualQuality
      limit := g.number? "limit"
      shaped := !g.has "no-shape"
      spectral := g.has "spectral"
      lab := g.has "lab"
      tuning := g.value? "tuning"
      earlyExit := g.number? "early-exit" }
  | .lookup, model :: values => some (.lookup {
      model
      values := values.filterMap Decimal.readFloat
      lab := g.has "lab"
      spectral := g.has "spectral"
      illuminant := g.value? "illuminant" })
  | .info, models => some (.info models)
  | .gamut, [model] =>
    (g.value? "output").map fun output => .gamut {
      model, output, verbose
      detail := (g.number? "detail").getD usualDetail }
  | .verify, [model, input] => some (.verify model input)
  | _, _ => none

/-- The word that asks for help on a command. -/
def helpWord : String := "help"

/-- What the words behind the word for help lead to: at most one of them, and
that one a command. -/
def helpOn : List String → Stop
  | [] => .help
  | [name] => if name = helpWord || (Verb.ofName? name).isSome then .help else .misuse
  | _ => .misuse

def Request.ofWords (words : List String) : Except Stop Request := do
  let (front, rest) ← frontForm.read words
  match rest with
  | [] => throw .misuse
  | word :: words =>
    if word = helpWord then throw (helpOn words)
    else
      match Verb.ofName? word with
      | none => throw .misuse
      | some v =>
        let g ← v.form.readAll words
        match Request.ofGiven v (front.has "verbose" || g.has "verbose") g with
        | some r => return r
        | none => throw .misuse

end InkModel.Command
