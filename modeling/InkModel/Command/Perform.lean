import InkModel.Command.Action
import InkModel.Command.Listing
import InkModel.Command.Request
import InkModel.Measurement
import InkModel.Profile.Settings

/-! # Performing requests

Every request is an action: files are read, a model is fitted or asked, and
files are written before anything is said about them.
-/

namespace InkModel.Command

open Cgats

def loadModel (path : String) : Action (Model Float) := do
  let failed (e : ModelError Float) : List String := ("Failed to load model: " ++ path) :: e.chain
  match ← Action.bytesOf path with
  | .error e => .fail (failed (.table (.file e)))
  | .ok bytes =>
    Action.ofExcept failed (((readBytes bytes).mapError .table).bind Machine.ofFile)

def loadMeasurements (path : String) : Action (Measurements Float) := do
  let unread (e : TableError) : List String := ("Failed to read: " ++ path) :: e.chain
  match ← Action.bytesOf path with
  | .error e => .fail (unread (.file e))
  | .ok bytes =>
    let tables ← Action.ofExcept unread (readBytes bytes)
    Action.ofExcept (fun e => ("Bad measurement file: " ++ path) :: e.chain)
      (Measurements.ofFile tables)

def textOf (bytes : ByteArray) : Except FileError String :=
  match String.fromUTF8? bytes with
  | some s => .ok s
  | none => .error .invalidText

def loadTuning (path : String) : Action (Tuning Float) := do
  let bytes ← Action.bytesOf path
  let text ← Action.ofExcept (fun e => ["Failed to read tuning: " ++ path, e.message])
    (bytes.bind textOf)
  match SettingsFile.read (textLines text) with
  | some t => return t
  | none => .fail ["Bad tuning file: " ++ path, "invalid settings"]

def store (path : String) (f : File Float) : Action Unit := do
  match ← Action.put path (render f) with
  | .ok _ => return ()
  | .error e => .fail (("Failed to write: " ++ path) :: (TableError.file e).chain)

def orFail {β : Type} (r : Except (ModelError Float) β) : Action β :=
  Action.ofExcept ModelError.chain r

def FitRequest.options (r : FitRequest) (quality : Quality) (m : Measurements Float)
    (tuning : Tuning Float) : FitOptions Float where
  verbose := r.verbose
  quality
  limit := r.limit.map (· / 100)
  shaped := r.shaped
  spectral := if r.spectral then m.spectral else none
  instrument := m.instrument
  earlyExit := r.earlyExit
  tuning

/-- The level of quality that a request asks for. -/
def FitRequest.qualityLevel (r : FitRequest) : Action Quality :=
  match Quality.ofLevel? r.quality with
  | some q => return q
  | none => .fail ["quality must be 0..=3, got " ++ r.quality.repr]

def FitRequest.loadTuning (r : FitRequest) : Action (Tuning Float) :=
  match r.tuning with
  | some path => Command.loadTuning path
  | none => return .default

def FitRequest.perform (r : FitRequest) : Action Unit := do
  let m ← loadMeasurements r.input
  if r.spectral && m.spectral.isNone then
    .fail [r.input ++ " carries no spectral data"]
  else
    let quality ← r.qualityLevel
    let tuning ← r.loadTuning
    let model ← Action.ofExcept (fun e => "Fit failed" :: ModelError.chain e)
      (Machine.ofSamples m.inks m.samples (r.options quality m tuning))
    match model.toFile (if r.lab then .lab else .xyz) with
    | .error e => .fail (("Failed to write: " ++ r.output) :: e.chain)
    | .ok f =>
      store r.output f
      let report ← orFail (Machine.fitReport model m.samples)
      Action.say (summaryText r.output report.render)

/-- Puts a model under a light source, if one is named. -/
def underIlluminant (m : Model Float) (name : Option String) : Action (Model Float) :=
  match name with
  | none => return m
  | some s => do
    let ill ← orFail ((Illuminant.ofName s).mapError .color)
    match Machine.setIlluminant m (some ill) with
    | .ok changed => return changed
    | .error (.refused e) => orFail (.error e)
    | .error .outside => .abort

def sayAll : List String → Action Unit
  | [] => return ()
  | line :: lines => do
    Action.say line
    sayAll lines

def LookupRequest.perform (r : LookupRequest) : Action Unit := do
  let m ← loadModel r.model
  if r.values.length ≠ m.channels then
    .fail [r.model ++ " has " ++ m.channels.repr ++ " channels (" ++ m.parts.inks.letters ++
      "), got " ++ r.values.length.repr ++ " values"]
  else
    let m ← underIlluminant m r.illuminant
    let dev := (r.values.map (· / 100)).toArray
    if r.lab then
      Action.say ("Lab " ++ colorText (Machine.lookupLab m dev).toList)
    else
      Action.say ("XYZ " ++ colorText ((Machine.lookup m dev).toList.map (· * 100)))
    if r.spectral then
      let values ← orFail (Machine.lookupSpectrum m dev)
      match m.parts.spectral with
      | some shape => sayAll (spectrumLines shape values)
      | none => return ()

/-- Shows the models in files, with an empty line between them. -/
def performInfo : List String → Action Unit
  | [] => return ()
  | path :: paths => do
    let m ← loadModel path
    sayAll (infoLines path m)
    if paths.isEmpty then return ()
    else
      Action.say ""
      performInfo paths

def surfaceKeywords (s : GamutSurface Float) : List (String × String) :=
  let labText (c : Lab Float) := String.intercalate " " (c.toList.map Decimal.shortest)
  let named : List (String × Option (Lab Float)) :=
    [("WHITE_LAB", s.white), ("BLACK_LAB", s.black), ("KBLACK_LAB", s.inkBlack)]
  ("DESCRIPTOR", "Model printer profile gamut") ::
    named.filterMap fun (name, c) => c.map fun c => (name, labText c)

def pointTable (kind : String) (s : GamutSurface Float) (points : Array (Lab Float)) :
    Table Float where
  kind
  keywords := surfaceKeywords s
  fields := (ColorEncoding.lab.fields.map fun name => ⟨name, .real⟩).toArray
  rows := points.map fun p => (p.toList.map Cell.real).toArray

def surfaceFile (s : GamutSurface Float) : File Float :=
  [pointTable "GAMUT_SURFACE" s s.points, pointTable "GAMUT_CUSPS" s s.cusps]

def GamutRequest.perform (r : GamutRequest) : Action Unit := do
  let m ← loadModel r.model
  let s ← orFail (Machine.surface m r.detail)
  store r.output (surfaceFile s)
  match s.bounds? with
  | some (lo, hi) => if r.verbose then Action.say (boundsText lo hi)
  | none => return ()
  Action.say (summaryText r.output (surfaceText s))

def performVerify (model input : String) : Action Unit := do
  let p ← loadModel model
  let m ← loadMeasurements input
  if m.inks ≠ p.parts.inks then
    .fail ["model is " ++ p.parts.inks.letters ++ ", measurements are " ++ m.inks.letters]
  else
    let report ← orFail (Machine.fitReport p m.samples)
    Action.say (summaryText input report.render)

def Request.perform : Request → Action Unit
  | .fit r => r.perform
  | .lookup r => r.perform
  | .info models => performInfo models
  | .gamut r => r.perform
  | .verify model input => performVerify model input

def versionText : String := "mpp 0.1.0\n"

def usageText : String :=
  "Usage: mpp [OPTIONS] <COMMAND>\n\nCommands:\n" ++
  "  fit     Fit a model to a measurement file\n" ++
  "  lookup  Convert device values through a model [aliases: l]\n" ++
  "  info    Show a model's configuration and white/black points [aliases: i]\n" ++
  "  gamut   Write the gamut surface of a model\n" ++
  "  verify  Compare a model against measurements\n"

/-- What the program does where a command line names no request. -/
def Stop.outcome (s : Stop) (d : Folder) : Outcome :=
  match s with
  | .help => ⟨successCode, usageText, "", d⟩
  | .version => ⟨successCode, versionText, "", d⟩
  | .misuse => ⟨misuseCode, "", usageText, d⟩

def runIn (words : List String) (d : Folder) : Outcome :=
  match Request.ofWords words with
  | .ok r => r.perform.runIn d ""
  | .error s => s.outcome d

end InkModel.Command
