import InkModel.Text.Blank

/-! # Words of a line

A line is split at white space. Double quotes hold a word together, and `#`
outside quotes begins a comment.
-/

namespace InkModel.Cgats

structure Token where
  /-- Its characters, without quotes. -/
  text : String
  quoted : Bool
  deriving Repr, DecidableEq

def quoteChar : Char := '"'

def commentChar : Char := '#'

/-- Whether a character continues a word without quotes. -/
def isWordChar (c : Char) : Bool := !Text.isBlank c && c != quoteChar

/-- The words of a line; none when a quote has no partner. -/
def tokenize : List Char → Option (List Token)
  | [] => some []
  | c :: cs =>
    if Text.isBlank c then tokenize cs
    else if c = commentChar then some []
    else if c = quoteChar then
      let text := cs.takeWhile (· != quoteChar)
      match _h : cs.dropWhile (· != quoteChar) with
      | [] => none
      | _ :: rest => (tokenize rest).map (⟨String.ofList text, true⟩ :: ·)
    else
      let text := c :: cs.takeWhile isWordChar
      (tokenize (cs.dropWhile isWordChar)).map (⟨String.ofList text, false⟩ :: ·)
termination_by cs => cs.length
decreasing_by
  · simp
  · have := (List.dropWhile_sublist (l := cs) (· != quoteChar)).length_le
    simp only [_h, List.length_cons] at this ⊢
    omega
  · have := (List.dropWhile_sublist (l := cs) isWordChar).length_le
    simp only [List.length_cons]
    omega

/-- Removes a carriage return at the end of a line. -/
def dropReturn (line : List Char) : List Char :=
  match line.reverse with
  | '\r' :: rest => rest.reverse
  | _ => line

/-- Splits off the lines of a text, behind those in `acc`. Every line ends with
a line feed, which the last may lack. -/
def linesFrom (acc : Array (List Char)) (cs : List Char) : Array (List Char) :=
  match _h : cs.dropWhile (· != '\n') with
  | [] => if cs.isEmpty then acc else acc.push cs
  | _ :: rest => linesFrom (acc.push (dropReturn (cs.takeWhile (· != '\n')))) rest
termination_by cs.length
decreasing_by
  have := (List.dropWhile_sublist (l := cs) (· != '\n')).length_le
  simp only [_h, List.length_cons] at this
  omega

def textLines (s : String) : List (List Char) := (linesFrom #[] s.toList).toList

/-- Splits bytes at line feeds, behind the lines in `acc`. -/
def byteChunks (acc : Array (List UInt8)) (bytes : List UInt8) : Array (List UInt8) :=
  match _h : bytes.dropWhile (· != 10) with
  | [] => if bytes.isEmpty then acc else acc.push bytes
  | _ :: rest => byteChunks (acc.push (bytes.takeWhile (· != 10) ++ [10])) rest
termination_by bytes.length
decreasing_by
  have := (List.dropWhile_sublist (l := bytes) (· != 10)).length_le
  simp only [_h, List.length_cons] at this
  omega

/-- The line of a chunk of bytes that ends with its line feed, if they encode a
text. -/
def lineOfBytes (chunk : List UInt8) : Option (List Char) :=
  (String.fromUTF8? ⟨chunk.toArray⟩).map fun s =>
    match s.toList.reverse with
    | '\n' :: rest => dropReturn rest.reverse
    | _ => s.toList

/-- The lines of a file; a line whose bytes encode no text is none. -/
def byteLines (bytes : ByteArray) : List (Option (List Char)) :=
  (byteChunks #[] bytes.toList).toList.map lineOfBytes

end InkModel.Cgats
