import InkModel.Profile.Options

/-! # Named settings

The constants of the fitting pipeline have names, under which a settings file
gives new values to some of them. A settings file has one `name: value` on a
line; `#` begins a comment, and names that mean nothing are skipped.
-/

namespace InkModel

open Scalar

inductive Setting (α : Type) where
  | count (n : Nat)
  /-- A number that is no natural number. -/
  | number (x : α)
  /-- No number. -/
  | other
  deriving Repr

/-- A named constant of the pipeline whose value is in `β`. -/
structure TuningField (α β : Type) where
  key : String
  get : Tuning α → β
  set : β → Tuning α → Tuning α

namespace Tuning

variable {α : Type}

def numberFields : List (TuningField α α) :=
  [⟨"trap_decay", (·.trapDecay), fun x t => { t with trapDecay := x }⟩,
   ⟨"shape_pmw", (·.shapeWeight), fun x t => { t with shapeWeight := x }⟩,
   ⟨"comb_pmw", (·.primaryWeight), fun x t => { t with primaryWeight := x }⟩,
   ⟨"comb_neg_weight", (·.negativeWeight), fun x t => { t with negativeWeight := x }⟩,
   ⟨"trans_hw01", (·.lowHarmonicWeight), fun x t => { t with lowHarmonicWeight := x }⟩,
   ⟨"trans_hwbr", (·.breakWeight), fun x t => { t with breakWeight := x }⟩,
   ⟨"trans_hwinc", (·.weightIncrease), fun x t => { t with weightIncrease := x }⟩,
   ⟨"initial_trans", (·.initialTransfer), fun x t => { t with initialTransfer := x }⟩,
   ⟨"near_sq", (·.nearSquared), fun x t => { t with nearSquared := x }⟩,
   ⟨"tol_start", (·.firstTolerance), fun x t => { t with firstTolerance := x }⟩,
   ⟨"tol_scale", (·.toleranceFactor), fun x t => { t with toleranceFactor := x }⟩,
   ⟨"black_neutral_weight", (·.neutralWeight), fun x t => { t with neutralWeight := x }⟩,
   ⟨"black_range_weight", (·.rangeWeight), fun x t => { t with rangeWeight := x }⟩,
   ⟨"black_fail", (·.blackFail), fun x t => { t with blackFail := x }⟩]

def countFields : List (TuningField α Nat) :=
  [⟨"trans_hbreak", (·.breakHarmonic), fun n t => { t with breakHarmonic := n }⟩,
   ⟨"max_iter", (·.maxIterations), fun n t => { t with maxIterations := n }⟩,
   ⟨"black_restarts", (·.blackRestarts), fun n t => { t with blackRestarts := n }⟩,
   ⟨"black_seed", (·.blackSeed), fun n t => { t with blackSeed := n }⟩]

def keys (α : Type) : List String :=
  (numberFields : List (TuningField α α)).map (·.key) ++
    (countFields : List (TuningField α Nat)).map (·.key)

variable [Scalar α]

/-- The constants with a setting; none when the value does not suit the
name. -/
def set? (t : Tuning α) (key : String) (value : Setting α) : Option (Tuning α) :=
  match numberFields.find? (·.key == key), countFields.find? (·.key == key), value with
  | some f, _, .number x => some (f.set x t)
  | some f, _, .count n => some (f.set (Scalar.ofNat n) t)
  | some _, _, .other => none
  | none, some f, .count n => some (f.set n t)
  | none, some _, _ => none
  | none, none, _ => some t

/-- The constants with settings, in order. -/
def setAll? (t : Tuning α) : List (String × Setting α) → Option (Tuning α)
  | [] => some t
  | (key, value) :: rest => (t.set? key value).bind (·.setAll? rest)

end Tuning

namespace SettingsFile

variable {α : Type} [Scalar α] [Numeral α]

/-- A line without its comment, which begins at the start or behind white
space. -/
def uncomment (afterGap : Bool) : List Char → List Char
  | [] => []
  | c :: cs => if c = '#' ∧ afterGap then [] else c :: uncomment (Text.isBlank c) cs

def infinityTexts : List String := [".inf", ".Inf", ".INF", "+.inf", "+.Inf", "+.INF"]

/-- Names of infinity below zero. -/
def minusInfinityTexts : List String := ["-.inf", "-.Inf", "-.INF"]

/-- Names of no number. -/
def nanTexts : List String := [".nan", ".NaN", ".NAN"]

/-- The number of a value. Only digits, a point and exponents are numbers; what
begins with a letter is a text, and so is what is too large. -/
def numberOf (s : String) : Option α :=
  if infinityTexts.contains s then Numeral.read? "inf"
  else if minusInfinityTexts.contains s then Numeral.read? "-inf"
  else if nanTexts.contains s then Numeral.read? "NaN"
  else if s.toList.all fun c => c.isDigit || "+-.eE".toList.contains c then
    (Numeral.read? s).filter Scalar.isFinite
  else none

/-- The count of a value. Digits that begin with a needless zero are none. -/
def countOf (s : String) : Option Nat :=
  match (Decimal.takeSign s.toList).2 with
  | '0' :: _ :: _ => none
  | _ => Decimal.readCount s

def settingOf (s : String) : Setting α :=
  match countOf s with
  | some n => .count n
  | none =>
    match numberOf s with
    | some x => .number x
    | none => .other

/-- The name and the value of a line. They are divided by the first colon that
stands before white space or at the end; none when there is no such colon. -/
def divide : List Char → Option (List Char × List Char)
  | [] => none
  | c :: cs =>
    if c = ':' && (cs.head?.all Text.isBlank) then some ([], cs)
    else (divide cs).map fun (name, value) => (c :: name, value)

def entryOf (line : List Char) : Option (String × Setting α) :=
  (divide line).map fun (name, value) =>
    (Text.trimmed (String.ofList name), settingOf (Text.trimmed (String.ofList value)))

/-- The settings of the lines of a file; none when a line is no setting. -/
def entries : List (List Char) → Option (List (String × Setting α))
  | [] => some []
  | line :: lines =>
    let content := uncomment true line
    if content.all Text.isBlank then entries lines
    else
      match entryOf content, entries lines with
      | some e, some rest => some (e :: rest)
      | _, _ => none

def hasRepeat : List (String × Setting α) → Bool
  | [] => false
  | (key, _) :: rest =>
    ((Tuning.keys α).contains key && rest.any (·.1 == key)) || hasRepeat rest

/-- The constants that a settings file gives; those that it does not name keep
their usual values. No constant has two settings. -/
def read (lines : List (List Char)) : Option (Tuning α) :=
  (entries lines).bind fun es => if hasRepeat es then none else Tuning.default.setAll? es

end SettingsFile

end InkModel
