import InkModel.Proofs.Color.Access
import InkModel.Proofs.Color.InkSet
import InkModel.Proofs.Device.Access
import InkModel.Proofs.Profile.BlackPoint
import InkModel.Proofs.Profile.Parts
import InkModel.Proofs.Search.Access

/-! # Accesses of lookups and of the search for the white and black points

The lookups of a model, the weights of a light source and the search for the points, with every
access checked. For parameters that pass their check none of them lies outside its table, but for
the conversion of a spectrum that has a single band.
-/

namespace InkModel

namespace Response

section Lookups

variable {α : Type} [Scalar α] (r : Response α) (dev : Array α)

def bandValue? (j : ℕ) : Option α :=
  r.parts.bands[j]?.bind fun b => evaluate? r.parts.layout b dev

def spectrum? : Option (List α) :=
  if xyzBands ≤ r.parts.bands.size then
    (r.parts.bands.toList.drop xyzBands).mapM fun b => evaluate? r.parts.layout b dev
  else none

def lookup? : Option (Xyz α) :=
  match r.weights with
  | some ws => (r.spectrum? dev).map (integrateBands ⟨0, 0, 0⟩ ws)
  | none =>
    (r.bandValue? dev 0).bind fun x =>
      (r.bandValue? dev 1).bind fun y => (r.bandValue? dev 2).map fun z => ⟨x, y, z⟩

def lookupLab? : Option (Lab α) := (r.lookup? dev).map Xyz.toLab

def point? : Option (DevicePoint α) := (r.lookup? dev).map fun xyz => ⟨dev, xyz⟩

def lookupSpectrum? : Option (Except (ModelError α) (List α)) :=
  match r.parts.spectral with
  | some _ => (r.spectrum? dev).map .ok
  | none => some (.error .notSpectral)

variable {r} (valid : r.parts.Valid)
include valid

theorem evaluate?_of_mem {b : Band α} (mem : b ∈ r.parts.bands) :
    evaluate? r.parts.layout b dev = some (evaluate r.parts.layout b dev) :=
  evaluate?_eq (valid.bands b mem) valid.inks dev

theorem bandValue?_eq {j : ℕ} (hj : j < xyzBands) :
    r.bandValue? dev j = some (r.bandValue j dev) := by
  have inside : j < r.parts.bands.size := by
    rw [valid.bandCount]
    exact Nat.lt_add_right _ hj
  simp only [bandValue?, bandValue, Array.getElem?_eq_getElem inside, Option.bind_some]
  exact evaluate?_of_mem dev valid (Array.getElem_mem inside)

theorem spectrum?_eq : r.spectrum? dev = some (r.spectrum dev) := by
  have colors : xyzBands ≤ r.parts.bands.size := by
    rw [valid.bandCount]
    exact Nat.le_add_right _ _
  rw [spectrum?, if_pos colors]
  apply mapM_eq_some_map
  intro b mem
  exact evaluate?_of_mem dev valid (Array.mem_toList_iff.mp (List.mem_of_mem_drop mem))

theorem lookup?_eq : r.lookup? dev = some (r.lookup dev) := by
  unfold lookup? lookup
  cases r.weights with
  | some ws => simp only [spectrum?_eq dev valid, Option.map_some]
  | none =>
      rw [bandValue?_eq dev valid (by decide), bandValue?_eq dev valid (by decide),
        bandValue?_eq dev valid (by decide)]
      rfl

theorem lookupLab?_eq : r.lookupLab? dev = some (r.lookupLab dev) := by
  rw [lookupLab?, lookup?_eq dev valid]
  rfl

theorem point?_eq : r.point? dev = some (r.point dev) := by
  rw [point?, lookup?_eq dev valid]
  rfl

theorem lookupSpectrum?_eq : r.lookupSpectrum? dev = some (r.lookupSpectrum dev) := by
  unfold lookupSpectrum? lookupSpectrum
  cases r.parts.spectral with
  | some s => simp only [spectrum?_eq dev valid, Option.map_some]
  | none => rfl

end Lookups

end Response

/-! Light sources. -/

section Light

variable {α : Type} [Scalar α]

def bandWeights? (ill : Illuminant) (s : SpectralShape α) :
    Except (Failure (ColorError α)) (List (Xyz α)) :=
  let one : SpectralShape α := { s with norm := 1 }
  (List.range s.bands).mapM fun i =>
    checked (set? (Array.replicate s.bands 0) i 1) >>= one.convert? ill

theorem bandWeights?_eq (ill : Illuminant) (s : SpectralShape α) :
    bandWeights? ill s = bandWeights ill s := by
  refine mapM_congr fun i mem => ?_
  have inside : i < (Array.replicate s.bands (0 : α)).size := by simpa using mem
  rw [set?_of_lt inside, checked_some_bind, SpectralShape.convert?_eq]

def Model.chosenWeights? (p : Parts α) (ill : Option Illuminant) :
    Except (Failure (ModelError α)) (Option (List (Xyz α))) :=
  match ill, p.spectral with
  | none, _ => .ok none
  | some _, none => .error (.refused .notSpectral)
  | some i, some s => ((bandWeights? i s).map some).mapError (Failure.map .color)

theorem Model.chosenWeights?_eq (p : Parts α) (ill : Option Illuminant) :
    chosenWeights? p ill = chosenWeights p ill := by
  unfold chosenWeights? chosenWeights
  cases ill with
  | none => rfl
  | some i =>
      cases p.spectral with
      | none => rfl
      | some s => simp only [bandWeights?_eq]

end Light

/-! The white and black points. -/

section Points

variable {α : Type} [Scalar α]

def inkBlackDev? (r : Response α) : Option (Option (Array α)) :=
  match r.parts.inks.channelOf? .black with
  | none => some none
  | some k =>
    let full := match r.limit with
      | some l => Scalar.min l 1
      | none => 1
    (set? (Array.replicate r.channels 0) k full).map some

def neutralTarget? (r : Response α) : Option (Lab α) :=
  let inks := r.parts.inks
  (inkBlackDev? r).bind fun
    | some dev => r.lookupLab? dev
    | none =>
      match inks.channelOf? .cyan, inks.channelOf? .magenta, inks.channelOf? .yellow with
      | some c, some m, some y =>
        (set? (Array.replicate r.channels 0) c 1).bind fun dev =>
          (set? dev m 1).bind fun dev =>
            (set? dev y 1).bind fun dev => r.lookupLab? (clipToLimit dev r.limit)
      | _, _, _ => some ⟨0, 0, 0⟩

def blackObjective? (r : Response α) (t : Tuning α) (white target : Lab α) (dev : Array α) :
    Option α :=
  (r.lookupLab? (dev.map saturate)).map fun lab => blackCost r.limit t white target lab dev

def blackTrials? (solver : Solver α) (objective : Array α → α) (limit : Option α) (n : ℕ)
    (best : Option (Minimum α)) :
    List (Array α) → Except (Failure (ModelError α)) (Option (Minimum α))
  | [] => .ok best
  | start :: starts =>
    (powell? solver.interval objective (clipToLimit start limit) (Array.replicate n blackRadius)
      blackTolerance blackSweeps).mapError (Failure.map .minimize) >>= fun m =>
        blackTrials? solver objective limit n (some (betterOf best m)) starts

def displayNeutrals? (r : Response α) : Option (Neutrals α) :=
  (r.point? (Array.replicate r.channels 1)).bind fun white =>
    (r.point? (Array.replicate r.channels 0)).map fun black => ⟨white, black, black⟩

/-- The points of a printer whose search has ended. -/
def printerPoints? (r : Response α) (white : DevicePoint α) (inkBlack : Option (Array α))
    (best : Minimum α) : Option (Neutrals α) :=
  (r.point? (clipToLimit (best.point.map saturate) r.limit)).bind fun black =>
    match inkBlack with
    | some dev => (r.point? dev).map fun inkBlack => ⟨white, black, inkBlack⟩
    | none => some ⟨white, black, black⟩

/-- The interval search may ask for the objective anywhere, so it must have a value everywhere. -/
noncomputable def printerNeutrals? (solver : Solver α) (r : Response α) (t : Tuning α) :
    Except (Failure (ModelError α)) (Neutrals α) :=
  checked (r.point? (Array.replicate r.channels 0)) >>= fun white =>
    checked (inkBlackDev? r) >>= fun inkBlack =>
      checked (neutralTarget? r) >>= fun target =>
        checked (everywhere? (blackObjective? r t white.xyz.toLab target)) >>= fun objective =>
          blackTrials? solver objective r.limit r.channels none
            (blackStarts solver t r.channels) >>= fun
              | none => .error (.refused (.blackPoint none))
              | some best =>
                if t.blackFail < best.value then
                  .error (.refused (.blackPoint (some best.value)))
                else checked (printerPoints? r white inkBlack best)

noncomputable def findNeutrals? (solver : Solver α) (r : Response α) (t : Tuning α) :
    Except (Failure (ModelError α)) (Neutrals α) :=
  if r.parts.inks.additive then checked (displayNeutrals? r) else printerNeutrals? solver r t

theorem blackTrials?_eq (solver : Solver α) (objective : Array α → α) (limit : Option α) (n : ℕ)
    (best : Option (Minimum α)) (starts : List (Array α)) :
    blackTrials? solver objective limit n best starts =
      refusing (blackTrials solver objective limit n best starts) := by
  induction starts generalizing best with
  | nil => rfl
  | cons start starts ih =>
      rw [blackTrials?, powell?_eq, blackTrials]
      cases powell solver.interval objective (clipToLimit start limit)
          (Array.replicate n blackRadius) blackTolerance blackSweeps with
      | error e => rfl
      | ok m => exact ih _

variable {r : Response α}

theorem inkBlackDev?_eq : inkBlackDev? r = some (inkBlackDev r) := by
  unfold inkBlackDev? inkBlackDev
  cases channel : r.parts.inks.channelOf? .black with
  | none => rfl
  | some k =>
      have inside : k < (Array.replicate r.channels (0 : α)).size := by
        rw [Array.size_replicate]
        exact (InkSet.channelOf?_eq_some channel).2
      dsimp only
      rw [set?_of_lt inside]
      rfl

variable (valid : r.parts.Valid)
include valid

theorem neutralTarget?_eq : neutralTarget? r = some (neutralTarget r) := by
  rw [neutralTarget?, inkBlackDev?_eq, Option.bind_some, neutralTarget]
  cases inkBlackDev r with
  | some dev => exact Response.lookupLab?_eq dev valid
  | none =>
      have inside {ink : Ink} {k : ℕ} (channel : r.parts.inks.channelOf? ink = some k) :
          k < r.channels := (InkSet.channelOf?_eq_some channel).2
      dsimp only
      cases cyan : r.parts.inks.channelOf? .cyan with
      | none => rfl
      | some c =>
          cases magenta : r.parts.inks.channelOf? .magenta with
          | none => rfl
          | some m =>
              cases yellow : r.parts.inks.channelOf? .yellow with
              | none => rfl
              | some y =>
                  dsimp only
                  rw [set?_of_lt (by simpa using inside cyan), Option.bind_some,
                    set?_of_lt (by simpa using inside magenta), Option.bind_some,
                    set?_of_lt (by simpa using inside yellow), Option.bind_some]
                  exact Response.lookupLab?_eq _ valid

theorem blackObjective?_eq (t : Tuning α) (white target : Lab α) (dev : Array α) :
    blackObjective? r t white target dev = some (blackObjective r t white target dev) := by
  rw [blackObjective?, Response.lookupLab?_eq _ valid]
  rfl

theorem displayNeutrals?_eq : displayNeutrals? r = some (displayNeutrals r) := by
  rw [displayNeutrals?, Response.point?_eq _ valid, Option.bind_some, Response.point?_eq _ valid]
  rfl

theorem printerPoints?_eq (best : Minimum α) :
    printerPoints? r (r.point (Array.replicate r.channels 0)) (inkBlackDev r) best =
      some (printerPoints r best) := by
  rw [printerPoints?, Response.point?_eq _ valid, Option.bind_some, printerPoints]
  cases inkBlackDev r with
  | none => rfl
  | some dev =>
      dsimp only
      rw [Response.point?_eq _ valid]
      rfl

theorem printerNeutrals?_eq (solver : Solver α) (t : Tuning α) :
    printerNeutrals? solver r t = refusing (printerNeutrals solver r t) := by
  rw [printerNeutrals?, Response.point?_eq _ valid, checked_some_bind, inkBlackDev?_eq,
    checked_some_bind, neutralTarget?_eq valid, checked_some_bind,
    everywhere?_eq (blackObjective?_eq valid t _ _), checked_some_bind, blackTrials?_eq,
    printerNeutrals]
  dsimp only
  split
  · rename_i failed
    rw [failed]
    rfl
  · rename_i ended
    rw [ended]
    rfl
  · rename_i best ended
    rw [ended]
    change ite _ _ _ = refusing (ite _ _ _)
    split
    · rfl
    · rw [printerPoints?_eq valid]
      rfl

/-- The search for the points never leaves its tables. -/
theorem findNeutrals?_eq (solver : Solver α) (t : Tuning α) :
    findNeutrals? solver r t = refusing (findNeutrals solver r t) := by
  unfold findNeutrals? findNeutrals
  split
  · rw [displayNeutrals?_eq valid]
    rfl
  · exact printerNeutrals?_eq valid solver t

end Points

end InkModel
