/-! # Columns of text -/

namespace InkModel.Text

/-- The text with blanks in front, so that it has at least `width` characters. -/
def alignRight (width : Nat) (s : String) : String :=
  String.ofList (List.replicate (width - s.length) ' ') ++ s

end InkModel.Text
