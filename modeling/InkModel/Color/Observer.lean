import InkModel.Color.Lab

/-! # Standard observer and illuminants

The CIE 1931 2 degree observer and the daylight illuminant D50, from 380 nm to
780 nm in steps of 10 nm. The tables hold whole numbers: millionths for the
observer, thousandths for the illuminant.
-/

namespace InkModel

/-- First wavelength of the tables in nm. -/
def tableStart : Nat := 380

/-- Step of the tables in nm. -/
def tableStep : Nat := 10

/-- Responses of the observer to each wavelength, in millionths. -/
def observerTable : List (Nat × Nat × Nat) :=
  [(1368, 39, 6450), (4243, 120, 20050), (14310, 396, 67850),
   (43510, 1210, 207400), (134380, 4000, 645600), (283900, 11600, 1385600),
   (348280, 23000, 1747060), (336200, 38000, 1772110), (290800, 60000, 1669200),
   (195360, 90980, 1287640), (95640, 139020, 812950), (32010, 208020, 465180),
   (4900, 323000, 272000), (9300, 503000, 158200), (63270, 710000, 78250),
   (165500, 862000, 42160), (290400, 954000, 20300), (433450, 994950, 8750),
   (594500, 995000, 3900), (762100, 952000, 2100), (916300, 870000, 1650),
   (1026300, 757000, 1100), (1062200, 631000, 800), (1002600, 503000, 340),
   (854450, 381000, 190), (642400, 265000, 50), (447900, 175000, 20),
   (283500, 107000, 0), (164900, 61000, 0), (87400, 32000, 0),
   (46770, 17000, 0), (22700, 8210, 0), (11359, 4102, 0),
   (5790, 2091, 0), (2899, 1047, 0), (1440, 520, 0),
   (690, 249, 0), (332, 120, 0), (166, 60, 0),
   (83, 30, 0), (42, 15, 0)]

/-- Power of D50 at each wavelength, in thousandths. -/
def daylightTable : List Nat :=
  [24488, 29871, 49308, 56513, 60034, 57818, 74825, 87247, 90612, 91368,
   95109, 91963, 95724, 96613, 97129, 102099, 100755, 102317, 100000, 97735,
   98918, 93499, 97688, 99269, 99042, 95722, 98857, 95667, 98190, 103003,
   99133, 87381, 91604, 92889, 76854, 86511, 92580, 78230, 57692, 82923,
   78274]

inductive Illuminant where
  /-- Daylight of 5000 K. -/
  | d50
  /-- Incandescent light of 2856 K. -/
  | a
  /-- The same power at every wavelength. -/
  | e
  deriving Repr, DecidableEq

namespace Illuminant

def name : Illuminant → String
  | d50 => "D50"
  | a => "A"
  | e => "E"

/-- The light source of a name, in any case. -/
def ofName? (s : String) : Option Illuminant :=
  [d50, a, e].find? fun i => i.name == s

variable {α : Type} [Scalar α]

open Scalar

/-- Second radiation constant in nm K, as the standard of incandescent light
uses it. -/
@[inline] def radiationConstant : α := 1.435e7

/-- Radiation of a black body of 2856 K at a wavelength, 100 at 560 nm. -/
@[specialize] def incandescent (nm : α) : α :=
  let body (nm : α) := Scalar.exp (radiationConstant / (2856 * nm)) - 1
  100 * Scalar.pow (560 / nm) 5 * body 560 / body nm

/-- Power of the light source at each table wavelength. -/
@[specialize] def powers : Illuminant → List α
  | d50 => daylightTable.map fun p => Scalar.ofScientific p true 3
  | a => (List.range observerTable.length).map fun i =>
      incandescent (Scalar.ofNat (tableStart + tableStep * i))
  | e => observerTable.map fun _ => 100

/-- Responses of the observer to a light source with these powers at the table wavelengths,
scaled so that their luminance adds up to 1. -/
@[specialize] def weightsOf (powers : List α) : List (Xyz α) :=
  let raw := List.zipWith (fun (x, y, z) (s : α) =>
    (⟨Scalar.ofScientific x true 6 * s, Scalar.ofScientific y true 6 * s,
      Scalar.ofScientific z true 6 * s⟩ : Xyz α)) observerTable powers
  let k := Scalar.sum (raw.map Xyz.y)
  raw.map fun w => ⟨w.x / k, w.y / k, w.z / k⟩

@[specialize] def weights (ill : Illuminant) : List (Xyz α) := weightsOf ill.powers

end Illuminant

end InkModel
