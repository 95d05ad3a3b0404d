import InkModel.Color.Error
import InkModel.Color.Ink
import InkModel.Text.Blank

/-! # Sets of colorants

The inks of a device and whether it adds light or absorbs it. Channels are
numbered in the order of the inks' positions, so a device description means
the same in whatever order it names its inks.
-/

namespace InkModel

/-- A non-empty set of inks, with the way in which the device mixes them. -/
structure InkSet where
  /-- The positions of the inks, as bits. -/
  bits : Nat
  additive : Bool
  bits_pos : 0 < bits
  /-- There is no bit beyond the inks. -/
  bits_lt : bits < 2 ^ Ink.all.length
  deriving Repr, DecidableEq

namespace InkSet

/-- The bit of raw bits that says that the device adds light. -/
def additiveBit : Nat := 31

/-- The set of raw bits; none when a bit is unknown or there is no ink. -/
def ofBits? (raw : Nat) : Option InkSet :=
  let additive := raw.testBit additiveBit
  let bits := if additive then raw - 2 ^ additiveBit else raw
  if h : 0 < bits ∧ bits < 2 ^ Ink.all.length then some ⟨bits, additive, h.1, h.2⟩ else none

/-- The raw bits, with the mixing of the device. -/
def toBits (s : InkSet) : Nat := if s.additive then s.bits + 2 ^ additiveBit else s.bits

def has (s : InkSet) (ink : Ink) : Bool := s.bits.testBit ink.position

def inks (s : InkSet) : List Ink := Ink.all.filter s.has

def count (s : InkSet) : Nat := s.inks.length

/-- The channel of an ink: the number of inks of the set before it. -/
def channelOf? (s : InkSet) (ink : Ink) : Option Nat :=
  if s.has ink then some (s.inks.filter fun other => other.position < ink.position).length
  else none

def inkAt? (s : InkSet) (channel : Nat) : Option Ink := s.inks[channel]?

def letters (s : InkSet) : String := String.ofList (s.inks.map Ink.letter)

/-- The inks that letters name, each at most once. The description is the text
that the letters come from. -/
def readLetters {α : Type} (description : String) :
    List Char → List Ink → Except (ColorError α) (List Ink)
  | [], seen => .ok seen
  | c :: cs, seen =>
    match Ink.ofLetter? c with
    | none => .error (.unknownInk c)
    | some ink =>
      if seen.contains ink then .error (.repeatedInk c description)
      else readLetters description cs (seen ++ [ink])

def bitsOf (inks : List Ink) : Nat := inks.foldl (fun b ink => b ||| 2 ^ ink.position) 0

theorem two_pow_position_lt (ink : Ink) : 2 ^ ink.position < 2 ^ Ink.all.length := by
  cases ink <;> decide

theorem foldl_bits_lt (inks : List Ink) {b : Nat} (h : b < 2 ^ Ink.all.length) :
    inks.foldl (fun b ink => b ||| 2 ^ ink.position) b < 2 ^ Ink.all.length := by
  induction inks generalizing b with
  | nil => exact h
  | cons ink inks ih => exact ih (Nat.or_lt_two_pow h (two_pow_position_lt ink))

theorem bitsOf_lt (inks : List Ink) : bitsOf inks < 2 ^ Ink.all.length :=
  foldl_bits_lt inks (by decide)

theorem le_foldl_bits (inks : List Ink) (b : Nat) :
    b ≤ inks.foldl (fun b ink => b ||| 2 ^ ink.position) b := by
  induction inks generalizing b with
  | nil => exact Nat.le_refl b
  | cons ink inks ih => exact Nat.le_trans Nat.left_le_or (ih _)

theorem bitsOf_pos {inks : List Ink} (h : inks ≠ []) : 0 < bitsOf inks := by
  cases inks with
  | nil => exact absurd rfl h
  | cons ink inks =>
    refine Nat.lt_of_lt_of_le ?_ (le_foldl_bits inks _)
    exact Nat.lt_of_lt_of_le (Nat.two_pow_pos ink.position) Nat.right_le_or

/-- The set of a non-empty list of inks. A device of red, green, blue and white
only adds light. -/
def ofInks? (inks : List Ink) : Option InkSet :=
  if h : inks ≠ [] then
    some ⟨bitsOf inks, inks.all Ink.isLight, bitsOf_pos h, bitsOf_lt inks⟩
  else none

/-- Reads a device description such as `CMYK` or `RGB`. -/
def ofLetters {α : Type} (description : String) : Except (ColorError α) InkSet :=
  let cs := Text.trim description.toList
  match readLetters (String.ofList cs) cs [] with
  | .error e => .error e
  | .ok inks =>
    match ofInks? inks with
    | some s => .ok s
    | none => .error .noInk

end InkSet

end InkModel
