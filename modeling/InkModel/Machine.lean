import InkModel.Fit.Schedule
import InkModel.Profile.File
import InkModel.Profile.Gamut
import InkModel.Profile.Report
import InkModel.Search.Brent
import InkModel.Search.ConjugateCycle
import InkModel.Search.Uniform

/-! # The library on doubles

The searches that the program runs with, and the main operations on models read
over doubles.
-/

namespace InkModel.Machine

def solver : Solver Float := ⟨Brent.search, ConjugateCycle.run, Uniform.numbers⟩

def ofParts (parts : Parts Float) : Except (ModelError Float) (Model Float) :=
  Model.ofParts solver parts

def ofFile (f : Cgats.File Float) : Except (ModelError Float) (Model Float) :=
  Model.ofFile solver f

def ofSamples (inks : InkSet) (samples : List (Sample Float)) (opts : FitOptions Float) :
    Except (ModelError Float) (Model Float) :=
  Model.ofSamples solver inks samples opts

def setIlluminant (m : Model Float) (ill : Option Illuminant) :
    Except (Failure (ModelError Float)) (Model Float) :=
  m.setIlluminant solver ill

def lookup (m : Model Float) (dev : Array Float) : Xyz Float := m.lookup dev

def lookupLab (m : Model Float) (dev : Array Float) : Lab Float := m.lookupLab dev

def lookupSpectrum (m : Model Float) (dev : Array Float) :
    Except (ModelError Float) (List Float) :=
  m.lookupSpectrum dev

def gamut (m : Model Float) (detail : Float) :
    Except (ModelError Float) (List (GamutEvent Float)) :=
  m.gamut detail

def surface (m : Model Float) (detail : Float) :
    Except (ModelError Float) (GamutSurface Float) :=
  m.surface detail

def fitReport (m : Model Float) (samples : List (Sample Float)) :
    Except (ModelError Float) (FitReport Float) :=
  m.fitReport samples

end InkModel.Machine
