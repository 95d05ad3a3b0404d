import InkModel.Main
import InkModel.Proofs.Cgats.Blocks
import InkModel.Proofs.Cgats.Truncation
import InkModel.Proofs.Device.Gradient
import InkModel.Proofs.Fit.Objective
import InkModel.Proofs.Profile.Corners
import InkModel.Proofs.Profile.RoundTrip
import InkModel.Proofs.Profile.Illuminant
import InkModel.Cgats.Edit
import InkModel.Proofs.Cgats.Edit
import InkModel.Proofs.Cgats.Rewrite
import InkModel.Proofs.Profile.Reload
import InkModel.Proofs.Search.Moves
import InkModel.Proofs.Extended
import InkModel.Proofs.Search.ConjugateGradient
import InkModel.Proofs.Profile.Arrangement
import InkModel.Proofs.Search.Line
import InkModel.Proofs.Device.Monotone
import InkModel.Proofs.Device.Warp
import InkModel.Proofs.Device.Reference
import InkModel.Proofs.Profile.Cusps
import InkModel.Proofs.Profile.Spectral
import InkModel.Proofs.Fit.WarmStart
import InkModel.Proofs.Profile.Threshold
import InkModel.Proofs.Color.Conversion
import InkModel.Proofs.Color.Bands
import InkModel.Proofs.Color.Letters
import InkModel.Proofs.Measurement.Order
import InkModel.Proofs.Fit.Points
import InkModel.Proofs.Profile.Report
import InkModel.Proofs.Profile.Slots
import InkModel.Proofs.Fit.Weightless
import InkModel.Proofs.Profile.Bounds
import InkModel.Proofs.Profile.Surface
