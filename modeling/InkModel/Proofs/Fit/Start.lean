import InkModel.Proofs.Device.Corners
import InkModel.Proofs.Fit.Points

/-! # Where a fit starts

All bands start with the same curves and without shapes. A primary whose corner is measured starts
at the first measurement there.
-/

namespace InkModel

/-! The points of a fit. -/

section Points

variable {α : Type} {n spectralBands : ℕ}

/-- The targets are the colour and then the spectrum. -/
theorem targets_eq_ok {s : Sample α} {target : Array α}
    (h : s.targets spectralBands = .ok target) :
    ∃ spectrum : Array α, target = #[s.xyz.x, s.xyz.y, s.xyz.z] ++ spectrum ∧
      spectrum.size = spectralBands ∧ (spectralBands ≠ 0 → s.spectrum = some spectrum) := by
  obtain ⟨measured, rfl⟩ := targets_eq_ok_iff.mp h
  by_cases plain : spectralBands = 0
  · exact ⟨#[], by simp [Sample.target, plain], plain.symm, fun spectral => absurd plain spectral⟩
  · obtain ⟨values, given, size⟩ := measured plain
    exact ⟨values, by simp [Sample.target, plain, given], size, fun _ => given⟩

variable [Scalar α]

theorem prepare_eq_ok {s : Sample α} {p : FitPoint α}
    (h : s.prepare n spectralBands = .ok p) :
    s.dev.size = n ∧ p.dev = s.dev.map saturate ∧ s.targets spectralBands = .ok p.target := by
  obtain ⟨accepted, rfl⟩ := prepare_eq_ok_iff.mp h
  exact ⟨accepted.device, rfl, targets_eq_ok_iff.mpr ⟨accepted.spectrum, rfl⟩⟩

theorem exists_preparePoints {samples : List (Sample α)}
    (each : ∀ s ∈ samples, ∃ p, s.prepare n spectralBands = .ok p) (index : ℕ) :
    ∃ points, preparePoints n spectralBands index samples = .ok points := by
  obtain ⟨-, taken⟩ | ⟨_, _, first, -⟩ := preparePoints_eq n spectralBands index samples
  · exact ⟨_, taken⟩
  · refine absurd (fun s mem => ?_) first.refused
    obtain ⟨p, prepared⟩ := each s mem
    exact (prepare_eq_ok_iff.mp prepared).1

theorem fitPoints_eq_ok {samples : List (Sample α)} {points : List (FitPoint α)}
    (h : fitPoints n spectralBands samples = .ok points) :
    points ≠ [] ∧ List.Forall₂ (fun s p => s.prepare n spectralBands = .ok p) samples points := by
  obtain ⟨nonempty, accepted, rfl⟩ := fitPoints_eq_ok_iff.mp h
  exact ⟨by simpa using nonempty, forall₂_prepare accepted⟩

/-- The points of a fit, unless something is wrong with what it is given. -/
def fitInputs (inks : InkSet) (samples : List (Sample α)) (opts : FitOptions α) :
    Except (ModelError α) (List (FitPoint α)) := do
  checkInks inks.count
  let spectralBands ← spectralCount opts.spectral
  fitPoints inks.count spectralBands samples

theorem fitInputs_eq_ok_iff {inks : InkSet} {samples : List (Sample α)} {opts : FitOptions α}
    {points : List (FitPoint α)} : fitInputs inks samples opts = .ok points ↔
      inks.count ≤ maxInks ∧ ∃ spectralBands,
        (spectralCount opts.spectral : Except (ModelError α) ℕ) = .ok spectralBands ∧
          fitPoints inks.count spectralBands samples = .ok points := by
  have few : (checkInks inks.count : Except (ModelError α) Unit) = .ok () ↔
      inks.count ≤ maxInks := by
    rw [checkInks]
    split <;> simp_all
  simp [fitInputs, bind_eq_ok_iff, few]

end Points

/-! The starting bands. -/

section Bands

variable {α : Type} [Scalar α] {l : Layout} {points : List (FitPoint α)} {additive : Bool}
variable {t : Tuning α}

/-- A band with the curves that all bands start with, and without shapes. -/
structure Band.IsFresh (b : Band α) (l : Layout) (t : Tuning α) : Prop where
  fits : b.Fits l
  transfer : b.transfer = startTransfer l t
  shape : b.shape = Array.replicate l.shapeCount 0

theorem initialBands_fresh : ∀ b ∈ initialBands l points additive t, b.IsFresh l t := by
  intro b mem
  obtain ⟨j, -, rfl⟩ := Array.mem_map.mp mem
  exact ⟨⟨by simp [startTransfer], by simp [Band.zero], by simp⟩, rfl, rfl⟩

theorem initialBands_size (nonempty : points ≠ []) {n spectralBands : ℕ} {samples : List (Sample α)}
    (prepared : List.Forall₂ (fun s p => s.prepare n spectralBands = .ok p) samples points) :
    (initialBands l points additive t).size = xyzBands + spectralBands := by
  cases prepared with
  | nil => exact absurd rfl nonempty
  | @cons s p _ _ first _ =>
      obtain ⟨spectrum, target, size, -⟩ := targets_eq_ok (prepare_eq_ok first).2.2
      simp [initialBands, target, size, xyzBands, Nat.add_comm]

/-- The curves have no other harmonic than the first. -/
theorem firstHarmonics_startTransfer :
    firstHarmonics l (startTransfer l t) = startTransfer l t := by
  apply Array.ext (by simp [firstHarmonics])
  intro i _ _
  simp only [firstHarmonics, startTransfer, Array.getElem_mapIdx, Array.getElem_map,
    Array.getElem_range]
  split <;> rfl

theorem startPrimary_measured {nearest : Array (Option (Nearest α))} {comb : ℕ} {near : Nearest α}
    (found : nearest.getD comb none = some near) (close : near.distance < t.nearSquared) (n j : ℕ) :
    startPrimary n additive t nearest j comb = near.point.target.getD j 0 := by
  simp [startPrimary, found, close]

theorem initialBands_primary {comb : ℕ} (hc : comb < l.combinations) {near : Nearest α}
    (found : nearestPoint comb points = some near) (close : near.distance < t.nearSquared) {j : ℕ}
    {b : Band α} (band : (initialBands l points additive t)[j]? = some b) :
    b.primaries[comb]? = some (near.point.target.getD j 0) := by
  obtain ⟨hj, rfl⟩ := Array.getElem?_eq_some_iff.mp band
  have nearest : ((Array.range l.combinations).map fun comb => nearestPoint comb points).getD
      comb none = some near := by
    simp [hc, found]
  simp only [initialBands, Array.getElem_map, Array.getElem_range, Array.getElem?_map,
    Array.getElem?_range, if_pos hc, Option.map_some, startPrimary_measured nearest close]

end Bands

/-! The nearest point. -/

section Nearest

variable {comb : ℕ}

theorem cornerDistance_eq (dev : Array ℝ) : cornerDistance comb dev =
    ∑ m ∈ Finset.range dev.size, (dev.getD m 0 - cornerValue comb m) ^ 2 := by
  rw [cornerDistance, Scalar.real_sumBelow]
  refine Finset.sum_congr rfl fun m _ => ?_
  rw [Scalar.real_sq, Scalar.real_zero, Scalar.real_one, cornerValue]

theorem cornerDistance_nonneg (dev : Array ℝ) : 0 ≤ cornerDistance comb dev := by
  rw [cornerDistance_eq]
  exact Finset.sum_nonneg fun m _ => sq_nonneg _

theorem cornerDistance_eq_zero_iff {l : Layout} {dev : Array ℝ} (size : dev.size = l.channels) :
    cornerDistance comb dev = 0 ↔ IsCorner l comb dev := by
  rw [cornerDistance_eq, Finset.sum_eq_zero_iff_of_nonneg fun m _ => sq_nonneg _, IsCorner, ← size]
  refine forall_congr' fun m => ?_
  rw [Finset.mem_range]
  refine forall_congr' fun hm => ?_
  simp [hm, sub_eq_zero]

/-- The nearer of the nearest point so far and another, which must be strictly nearer. -/
noncomputable def nearer (comb : ℕ) (best : Option (Nearest ℝ)) (p : FitPoint ℝ) :
    Option (Nearest ℝ) :=
  match best with
  | none => some ⟨p, cornerDistance comb p.dev⟩
  | some b =>
    if cornerDistance comb p.dev < b.distance then some ⟨p, cornerDistance comb p.dev⟩ else some b

theorem nearestPoint_eq (points : List (FitPoint ℝ)) :
    nearestPoint comb points = points.foldl (nearer comb) none := by
  unfold nearestPoint
  congr 1
  funext best p
  cases best <;> rfl

/-- No point is nearer than one at the corner. -/
theorem foldl_nearer_corner {b : Nearest ℝ} (corner : b.distance = 0) (points : List (FitPoint ℝ)) :
    points.foldl (nearer comb) (some b) = some b := by
  induction points with
  | nil => rfl
  | cons p points ih =>
      have kept : nearer comb (some b) p = some b :=
        if_neg (corner ▸ not_lt.mpr (cornerDistance_nonneg p.dev))
      rw [List.foldl_cons, kept, ih]

theorem foldl_nearer_far {best : Option (Nearest ℝ)} (apart : ∀ b ∈ best, 0 < b.distance)
    {points : List (FitPoint ℝ)} (far : ∀ p ∈ points, 0 < cornerDistance comb p.dev) :
    ∀ b ∈ points.foldl (nearer comb) best, 0 < b.distance := by
  induction points generalizing best with
  | nil => exact apart
  | cons p points ih =>
      obtain ⟨first, others⟩ := List.forall_mem_cons.mp far
      refine ih ?_ others
      intro b mem
      unfold nearer at mem
      split at mem
      · cases mem
        exact first
      · split at mem
        · cases mem
          exact first
        · exact apart b mem

/-- The nearest point is the first at the corner, if there is one. -/
theorem nearestPoint_corner {before after : List (FitPoint ℝ)} {p : FitPoint ℝ}
    (far : ∀ q ∈ before, 0 < cornerDistance comb q.dev) (corner : cornerDistance comb p.dev = 0) :
    nearestPoint comb (before ++ p :: after) = some ⟨p, 0⟩ := by
  rw [nearestPoint_eq, List.foldl_append, List.foldl_cons]
  have apart : ∀ b ∈ before.foldl (nearer comb) none, 0 < b.distance :=
    foldl_nearer_far (by simp) far
  have here : nearer comb (before.foldl (nearer comb) none) p = some ⟨p, 0⟩ := by
    cases best : before.foldl (nearer comb) none with
    | none => simp [nearer, corner]
    | some b =>
        have positive : 0 < b.distance := apart b best
        simp [nearer, corner, positive]
  rw [here, foldl_nearer_corner rfl]

end Nearest

/-- Whether a sample sits at a corner, within the range of the device. -/
def Sample.SitsAt (s : Sample ℝ) (l : Layout) (comb : ℕ) : Prop :=
  IsCorner l comb (s.dev.map saturate)

/-- The nearest point to a measured corner is the first measurement there. -/
theorem nearestPoint_measured {l : Layout} {spectralBands comb : ℕ}
    {points : List (FitPoint ℝ)} {before after : List (Sample ℝ)} {s : Sample ℝ}
    (prepared : List.Forall₂ (fun s p => s.prepare l.channels spectralBands = .ok p)
      (before ++ s :: after) points)
    (sits : s.SitsAt l comb) (first : ∀ s' ∈ before, ¬s'.SitsAt l comb) :
    ∃ p, s.prepare l.channels spectralBands = .ok p ∧ nearestPoint comb points = some ⟨p, 0⟩ := by
  have distance {s : Sample ℝ} {p : FitPoint ℝ}
      (h : s.prepare l.channels spectralBands = .ok p) :
      cornerDistance comb p.dev = 0 ↔ s.SitsAt l comb := by
    obtain ⟨size, dev, -⟩ := prepare_eq_ok h
    rw [cornerDistance_eq_zero_iff (by rw [dev, Array.size_map, size]), dev, Sample.SitsAt]
  have earlier := (List.forall₂_take_append _ _ _ prepared.flip).flip
  have later := (List.forall₂_drop_append _ _ _ prepared.flip).flip
  obtain ⟨p, rest, here, -, split⟩ := List.forall₂_cons_left_iff.mp later
  have points_eq : points = points.take before.length ++ p :: rest := by
    rw [← split, List.take_append_drop]
  refine ⟨p, here, ?_⟩
  rw [points_eq]
  refine nearestPoint_corner (fun q mem => ?_) ((distance here).mpr sits)
  obtain ⟨s', mem', own⟩ := exists_mem_of_forall₂ earlier.flip mem
  exact (cornerDistance_nonneg q.dev).lt_of_ne' (mt (distance own).mp (first s' mem'))

/-- A primary that is measured starts as the first measurement at its corner. -/
theorem initialBands_measured {l : Layout} {spectralBands comb : ℕ} {t : Tuning ℝ}
    {points : List (FitPoint ℝ)} {before after : List (Sample ℝ)} {s : Sample ℝ}
    (prepared : List.Forall₂ (fun s p => s.prepare l.channels spectralBands = .ok p)
      (before ++ s :: after) points)
    (hc : comb < l.combinations) (close : 0 < t.nearSquared)
    (sits : s.SitsAt l comb) (first : ∀ s' ∈ before, ¬s'.SitsAt l comb) (additive : Bool) :
    ∃ target, s.targets spectralBands = .ok target ∧
      ∀ j b, (initialBands l points additive t)[j]? = some b →
        b.primaries[comb]? = some (target.getD j 0) := by
  obtain ⟨p, here, nearest⟩ := nearestPoint_measured prepared sits first
  refine ⟨p.target, (prepare_eq_ok here).2.2, fun j b band => ?_⟩
  rw [initialBands_primary hc nearest close band, Scalar.real_zero]

end InkModel
