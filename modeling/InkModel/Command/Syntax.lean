/-! # Syntax of a command line

A command line is a list of words. A word behind one hyphen is a cluster of
short options, a word behind two hyphens a long option, and every other word an
operand. An option that needs a value takes it from its own word or from the
next one. The first word that does not fit decides: `Form.read` goes from left
to right and stops at a fault, or where help or the version is asked for.
-/

namespace InkModel.Command

inductive OptionKind where
  /-- A feature, asked for once. -/
  | flag
  /-- A feature that may be asked for again and again. -/
  | counted
  /-- A value, given once, of the texts that pass the check. -/
  | value (accepts : String → Bool)
  | help
  | version

structure OptionForm where
  name : String
  short : Option Char
  kind : OptionKind

def OptionForm.needsValue (o : OptionForm) : Bool :=
  match o.kind with
  | .value _ => true
  | _ => false

structure OperandForm where
  accepts : String → Bool
  negative : Bool := false
  /-- Whether all further operands stand there too; only of the last place. -/
  repeated : Bool := false

structure Form where
  options : List OptionForm
  /-- The places of the operands; each needs at least one. -/
  operands : List OperandForm

structure Given where
  /-- Names of options with their values, the last first. -/
  options : List (String × String) := []
  operands : Array String := #[]
  deriving Repr, DecidableEq

inductive Stop where
  | help
  | version
  /-- A word does not fit. -/
  | misuse
  deriving Repr, DecidableEq

namespace Given

def count (g : Given) (name : String) : Nat := g.options.countP fun o => o.1 == name

def has (g : Given) (name : String) : Bool := 0 < g.count name

def value? (g : Given) (name : String) : Option String := g.options.lookup name

/-- Adds an option that stands for a value or for a feature; one of the latter
has an empty value. -/
def add (g : Given) (o : OptionForm) (value : String) : Except Stop Given :=
  let added : Given := { g with options := (o.name, value) :: g.options }
  match o.kind with
  | .help => .error .help
  | .version => .error .version
  | .counted => .ok added
  | .flag => if g.has o.name then .error .misuse else .ok added
  | .value accepts =>
    if g.has o.name || !accepts value then .error .misuse else .ok added

def addOperand (g : Given) (word : String) : Given :=
  { g with operands := g.operands.push word }

end Given

/-- Whether a word is a negative number without its hyphen: digits, with a
point that is not the first character, and with an exponent that is neither
first nor empty. The point does not stand behind the exponent. -/
def isPlainNumber (cs : List Char) : Bool :=
  let isMark (c : Char) := c == 'e' || c == 'E'
  let front := cs.takeWhile fun c => !isMark c
  let back := cs.dropWhile fun c => !isMark c
  let digitsOrPoint := front.all fun c => c.isDigit || c == '.'
  digitsOrPoint && front.head? != some '.' && front.count '.' ≤ 1 &&
    match back with
    | [] => true
    | _ :: exponent => !front.isEmpty && !exponent.isEmpty && exponent.all Char.isDigit

inductive WordShape where
  /-- The two hyphens after which every word is an operand. -/
  | terminator
  /-- The name of an option, and a value if there is an equals sign. -/
  | long (name : String) (value : Option String)
  | cluster (letters : List Char)
  | plain
  deriving Repr, DecidableEq

/-- The shape of the word of some characters. A single hyphen is plain. -/
def WordShape.of : List Char → WordShape
  | ['-', '-'] => .terminator
  | '-' :: '-' :: cs =>
    match cs.dropWhile (· != '=') with
    | [] => .long (String.ofList cs) none
    | _ :: value => .long (String.ofList (cs.takeWhile (· != '='))) (some (String.ofList value))
  | '-' :: c :: cs => .cluster (c :: cs)
  | _ => .plain

/-- What the next word of a command line may be. -/
inductive Expectation where
  | word
  | value (o : OptionForm)
  /-- An operand, whatever it looks like. -/
  | operand

namespace Form

/-- The place of the next operand behind `count` of them. -/
def place? (f : Form) (count : Nat) : Option OperandForm :=
  match f.operands[count]? with
  | some p => some p
  | none => f.operands.getLast?.filter (·.repeated)

/-- The shape of a word behind some words. Where a negative number may stand as
the next operand, it is plain. -/
def shapeOf (f : Form) (g : Given) (word : String) : WordShape :=
  match WordShape.of word.toList with
  | .cluster letters =>
    if ((f.place? g.operands.size).any (·.negative)) && isPlainNumber letters then .plain
    else .cluster letters
  | s => s

/-- Adds the long option of a word, and says what comes next: the value of an
option that still needs one. -/
def addLong (f : Form) (g : Given) (name : String) (value : Option String) :
    Except Stop (Given × Expectation) :=
  match f.options.find? (·.name == name), value with
  | none, _ => .error .misuse
  | some o, none => if o.needsValue then .ok (g, .value o) else (g.add o "").map (·, .word)
  | some o, some v => if o.needsValue then (g.add o v).map (·, .word) else .error .misuse

/-- The value of an option within its cluster, behind an equals sign if there
is one. -/
def valueInCluster : List Char → String
  | '=' :: cs => String.ofList cs
  | cs => String.ofList cs

/-- Adds the options of a cluster. The letters behind an option that needs a
value are its value; without such letters the value comes next. -/
def addCluster (f : Form) (g : Given) : List Char → Except Stop (Given × Expectation)
  | [] => .ok (g, .word)
  | c :: cs =>
    match f.options.find? (·.short == some c) with
    | none => .error .misuse
    | some o =>
      if o.needsValue then
        if cs.isEmpty then .ok (g, .value o) else (g.add o (valueInCluster cs)).map (·, .word)
      else
        match g.add o "" with
        | .error e => .error e
        | .ok g' => f.addCluster g' cs

/-- Reads words behind those that gave `g`. An operand that has no place ends
the reading, together with the words behind it, unless only operands may come. -/
def readFrom (f : Form) (next : Expectation) (g : Given) :
    List String → Except Stop (Given × List String)
  | [] =>
    match next with
    | .value _ => .error .misuse
    | _ => .ok (g, [])
  | word :: words =>
    match next, f.shapeOf g word with
    | .value o, .plain =>
      match g.add o word with
      | .error e => .error e
      | .ok g' => f.readFrom .word g' words
    | .value _, _ => .error .misuse
    | .word, .terminator => f.readFrom .operand g words
    | .word, .long name value =>
      match f.addLong g name value with
      | .error e => .error e
      | .ok (g', next') => f.readFrom next' g' words
    | .word, .cluster letters =>
      match f.addCluster g letters with
      | .error e => .error e
      | .ok (g', next') => f.readFrom next' g' words
    | .word, .plain =>
      match f.place? g.operands.size with
      | none => .ok (g, word :: words)
      | some p =>
        if p.accepts word then f.readFrom .word (g.addOperand word) words else .error .misuse
    | .operand, _ =>
      match f.place? g.operands.size with
      | none => .error .misuse
      | some p =>
        if p.accepts word then f.readFrom .operand (g.addOperand word) words
        else .error .misuse

/-- Reads a command line up to the first operand that has no place. -/
def read (f : Form) (words : List String) : Except Stop (Given × List String) :=
  f.readFrom .word {} words

/-- Reads a whole command line, with an operand in every place. -/
def readAll (f : Form) (words : List String) : Except Stop Given :=
  match f.read words with
  | .error e => .error e
  | .ok (g, rest) =>
    if rest.isEmpty && f.operands.length ≤ g.operands.size then .ok g else .error .misuse

end Form

end InkModel.Command
