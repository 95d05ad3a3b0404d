/-! # Colorants

The thirteen inks that a device can have. Each has a position, which fixes the
order of channels, and a letter, which names it in device descriptions.
-/

namespace InkModel

inductive Ink where
  | cyan
  | magenta
  | yellow
  | black
  | orange
  | red
  | green
  | blue
  /-- White, or the single channel of a grey display. -/
  | white
  | lightCyan
  | lightMagenta
  | lightYellow
  /-- Light black, a grey ink. -/
  | lightBlack
  deriving Repr, DecidableEq

namespace Ink

def all : List Ink :=
  [cyan, magenta, yellow, black, orange, red, green, blue, white,
   lightCyan, lightMagenta, lightYellow, lightBlack]

/-- Position of the ink: its bit in a set of inks. -/
def position : Ink → Nat
  | cyan => 0
  | magenta => 1
  | yellow => 2
  | black => 3
  | orange => 4
  | red => 5
  | green => 6
  | blue => 7
  | white => 8
  | lightCyan => 9
  | lightMagenta => 10
  | lightYellow => 11
  | lightBlack => 12

def letter : Ink → Char
  | cyan => 'C'
  | magenta => 'M'
  | yellow => 'Y'
  | black => 'K'
  | orange => 'O'
  | red => 'R'
  | green => 'G'
  | blue => 'B'
  | white => 'W'
  | lightCyan => 'c'
  | lightMagenta => 'm'
  | lightYellow => 'y'
  | lightBlack => 'k'

def ofLetter? (c : Char) : Option Ink := all.find? fun ink => ink.letter == c

/-- Whether the ink is a primary of displays: red, green, blue or white. -/
def isLight : Ink → Bool
  | red | green | blue | white => true
  | _ => false

end Ink

end InkModel
