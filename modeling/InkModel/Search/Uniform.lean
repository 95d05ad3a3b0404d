/-! # Reproducible random numbers

Numbers in `[0, 1)` from a seed, by the ChaCha stream cipher with twelve
rounds. The key is expanded from the seed by a permuted congruential
generator, the counter and the stream number begin at zero.
-/

namespace InkModel.Uniform

/-- One step of the generator that expands a seed: the next state. -/
def nextState (s : UInt64) : UInt64 := s * 6364136223846793005 + 11634580027462260723

def rotateRight (x r : UInt32) : UInt32 := (x >>> r) ||| (x <<< ((32 - r) % 32))

def rotateLeft (x r : UInt32) : UInt32 := (x <<< r) ||| (x >>> (32 - r))

/-- The word that a state of the generator gives. -/
def stateWord (s : UInt64) : UInt32 :=
  rotateRight (((s >>> 18) ^^^ s) >>> 27).toUInt32 (s >>> 59).toUInt32

/-- The next `n` words of the generator. -/
def expand : Nat → UInt64 → List UInt32
  | 0, _ => []
  | n + 1, s =>
    let s' := nextState s
    stateWord s' :: expand n s'

def blockConstants : List UInt32 := [0x61707865, 0x3320646e, 0x79622d32, 0x6b206574]

/-- The block before any round. -/
def initialBlock (key : List UInt32) (counter : UInt64) : Array UInt32 :=
  (blockConstants ++ key ++ [counter.toUInt32, (counter >>> 32).toUInt32, 0, 0]).toArray

def quarterRound (b : Array UInt32) (i j k l : Nat) : Array UInt32 :=
  let (x, y, z, w) := (b.getD i 0, b.getD j 0, b.getD k 0, b.getD l 0)
  let x := x + y
  let w := rotateLeft (w ^^^ x) 16
  let z := z + w
  let y := rotateLeft (y ^^^ z) 12
  let x := x + y
  let w := rotateLeft (w ^^^ x) 8
  let z := z + w
  let y := rotateLeft (y ^^^ z) 7
  (((b.setIfInBounds i x).setIfInBounds j y).setIfInBounds k z).setIfInBounds l w

/-- The words that are mixed together: columns, then diagonals. -/
def mixing : List (Nat × Nat × Nat × Nat) :=
  [(0, 4, 8, 12), (1, 5, 9, 13), (2, 6, 10, 14), (3, 7, 11, 15),
   (0, 5, 10, 15), (1, 6, 11, 12), (2, 7, 8, 13), (3, 4, 9, 14)]

/-- A round over the columns and one over the diagonals. -/
def doubleRound (b : Array UInt32) : Array UInt32 :=
  mixing.foldl (fun b (i, j, k, l) => quarterRound b i j k l) b

def doubleRounds : Nat := 6

def block (key : List UInt32) (counter : UInt64) : Array UInt32 :=
  let start := initialBlock key counter
  Array.zipWith (· + ·) (Nat.repeat doubleRound doubleRounds start) start

/-- The number in `[0, 1)` of two words, the low one first. -/
def unit (low high : UInt32) : Float :=
  let bits := (high.toUInt64 <<< 32) ||| low.toUInt64
  (bits >>> 12).toFloat / 4503599627370496.0

def numbersPerBlock : Nat := 8

/-- The first `count` numbers of a seed. -/
def numbers (seed count : Nat) : Array Float :=
  let key := expand 8 (UInt64.ofNat seed)
  let blocks := (List.range ((count + numbersPerBlock - 1) / numbersPerBlock)).map fun c =>
    let b := block key (UInt64.ofNat c)
    (List.range numbersPerBlock).map fun i => unit (b.getD (2 * i) 0) (b.getD (2 * i + 1) 0)
  (blocks.flatten.take count).toArray

end InkModel.Uniform
