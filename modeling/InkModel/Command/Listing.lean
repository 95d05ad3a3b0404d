import InkModel.Decimal.Shortest
import InkModel.Machine
import InkModel.Text.Align

/-! # Listings

How colours, spectra, models and gamuts are shown.
-/

namespace InkModel.Command

/-- A number with `places` decimals in a column of `width` characters. -/
def columnText (width places : Nat) (x : Float) : String :=
  Text.alignRight width (Decimal.places places x)

def colorText (values : List Float) : String :=
  String.intercalate " " (values.map (columnText 8 3))

def bandText (nm value : Float) : String :=
  columnText 5 0 nm ++ " nm " ++ columnText 8 4 value

def spectrumLines (shape : SpectralShape Float) (values : List Float) : List String :=
  values.mapIdx fun i v => bandText (shape.wavelength i) v

def deviceText (dev : Array Float) : String :=
  "[" ++ String.intercalate ", " (dev.toList.map Decimal.listed) ++ "]"

def pointText (p : DevicePoint Float) : String :=
  "Lab " ++ colorText p.xyz.toLab.toList ++ "  dev " ++ deviceText p.dev

/-- The ink limit in percent. -/
def limitText : Option Float → String
  | some l => Decimal.places 0 (l * 100) ++ "%"
  | none => "none"

/-- The line of a band layout, if there is one. -/
def layoutLines : Option (SpectralShape Float) → List String
  | some s =>
    ["  Spectral:   " ++ s.bands.repr ++ " bands, " ++ Decimal.shortest s.startNm ++ "-" ++
      Decimal.shortest s.endNm ++ " nm"]
  | none => []

/-- The line of an instrument, if there is one. -/
def instrumentLines : Option String → List String
  | some name => ["  Instrument: " ++ name]
  | none => []

/-- The lines of white and black. A black of the black ink has a line of its
own when it differs. -/
def neutralLines (n : Neutrals Float) : List String :=
  ["  White:      " ++ pointText n.white, "  Black:      " ++ pointText n.black] ++
    (if sameValues n.inkBlack.dev.toList n.black.dev.toList then []
     else ["  K black:    " ++ pointText n.inkBlack])

def infoLines (path : String) (m : Model Float) : List String :=
  [path,
   "  Colorants:  " ++ m.parts.inks.letters ++ " (" ++ m.channels.repr ++ " channels)",
   "  Class:      " ++ m.deviceClass.name,
   "  Ink limit:  " ++ limitText m.limit,
   "  Transfer:   order " ++ m.parts.order.repr,
   "  Shape:      " ++ (if m.parts.shaped then "yes" else "no")]
    ++ layoutLines m.parts.spectral ++ instrumentLines m.parts.instrument
    ++ neutralLines m.neutrals

def rangeText (name : String) (lo hi : Float) : String :=
  name ++ " " ++ Decimal.places 1 lo ++ ".." ++ Decimal.places 1 hi

def boundsText (lo hi : Lab Float) : String :=
  String.intercalate "  "
    [rangeText "L" lo.l hi.l, rangeText "a" lo.a hi.a, rangeText "b" lo.b hi.b]

def summaryText (path text : String) : String := path ++ ": " ++ text

def surfaceText (s : GamutSurface Float) : String :=
  s.points.size.repr ++ " points, " ++ s.cusps.size.repr ++ " cusps"

end InkModel.Command
