import InkModel.Proofs.Profile.Limit
import InkModel.Proofs.Search.Powell

/-! # The search for the black of a printer

The search runs all its trials, and its black is the end of the first of its
best trials.
-/

namespace InkModel

section Trials

variable {α : Type}

theorem blackStarts_length (solver : Solver α) (t : Tuning α) (n : ℕ) :
    (blackStarts solver t n).length = max t.blackRestarts 1 := by
  simp [blackStarts]

theorem blackStarts_size {solver : Solver α} {t : Tuning α} {n : ℕ}
    (supplied : (solver.uniform t.blackSeed (max t.blackRestarts 1 * n)).size =
      max t.blackRestarts 1 * n) :
    ∀ start ∈ blackStarts solver t n, start.size = n := by
  intro start mem
  obtain ⟨i, hi, rfl⟩ := List.mem_map.mp mem
  have last : (i + 1) * n ≤ max t.blackRestarts 1 * n :=
    Nat.mul_le_mul_right _ (List.mem_range.mp hi)
  rw [Array.size_extract, supplied, Nat.min_eq_left last, Nat.succ_mul, Nat.add_sub_cancel_left]

variable [Scalar α] {solver : Solver α} {r : Response α} {t : Tuning α}

/-- One trial of the search for the black of a printer. -/
def blackTrial (solver : Solver α) (r : Response α) (t : Tuning α) (start : Array α) :
    Except (MinimizeError α) (Minimum α) :=
  let white := r.point (Array.replicate r.channels 0)
  powell solver.interval (blackObjective r t white.xyz.toLab (neutralTarget r))
    (clipToLimit start r.limit) (Array.replicate r.channels blackRadius) blackTolerance blackSweeps

/-- Whether all trials succeed, with these outcomes. -/
def Trials (solver : Solver α) (r : Response α) (t : Tuning α) (mins : List (Minimum α)) : Prop :=
  List.Forall₂ (fun start m => blackTrial solver r t start = .ok m)
    (blackStarts solver t r.channels) mins

theorem Trials.length {mins : List (Minimum α)} (h : Trials solver r t mins) :
    mins.length = max t.blackRestarts 1 := by
  rw [← h.length_eq, blackStarts_length]

theorem Trials.ne_nil {mins : List (Minimum α)} (h : Trials solver r t mins) : mins ≠ [] := by
  have length : 1 ≤ mins.length := h.length ▸ le_max_right _ _
  exact List.ne_nil_of_length_pos length

theorem blackTrial_size {start : Array α} {m : Minimum α}
    (h : blackTrial solver r t start = .ok m) : m.point.size = r.channels := by
  obtain ⟨radii, kept⟩ := powell_size h
  rw [kept, radii, Array.size_replicate]

/-- What holds at the end of each trial, holds of all outcomes. -/
theorem Trials.forall {mins : List (Minimum α)} (h : Trials solver r t mins)
    {P : Minimum α → Prop} (each : ∀ start ∈ blackStarts solver t r.channels, ∀ m,
      blackTrial solver r t start = .ok m → P m) : ∀ m ∈ mins, P m := by
  intro m mem
  obtain ⟨i, hi, rfl⟩ := List.mem_iff_getElem.mp mem
  have hs : i < (blackStarts solver t r.channels).length := by rwa [h.length_eq]
  exact each _ (List.getElem_mem hs) _ (h.get hs hi)

theorem Trials.size {mins : List (Minimum α)} (h : Trials solver r t mins) :
    ∀ m ∈ mins, m.point.size = r.channels :=
  h.forall fun _ _ _ => blackTrial_size

/-- The best of some outcomes, when the best so far is `best`. -/
def bestFrom (best : Option (Minimum α)) (mins : List (Minimum α)) : Option (Minimum α) :=
  mins.foldl (fun best m => some (betterOf best m)) best

theorem bestFrom_isSome {mins : List (Minimum α)} (h : mins ≠ []) :
    ∃ best, bestFrom none mins = some best := by
  have from_some (mins : List (Minimum α)) (b : Minimum α) :
      ∃ best, bestFrom (some b) mins = some best := by
    induction mins generalizing b with
    | nil => exact ⟨b, rfl⟩
    | cons m mins ih => exact ih (betterOf (some b) m)
  cases mins with
  | nil => exact absurd rfl h
  | cons m mins => exact from_some mins m

/-- The search runs its trials in turn, fails with the first failure and keeps the
best outcome otherwise. -/
theorem blackTrials_eq_ok_iff {objective : Array α → α} {limit : Option α} {n : ℕ}
    {starts : List (Array α)} {best result : Option (Minimum α)} :
    blackTrials solver objective limit n best starts = .ok result ↔
      ∃ mins, List.Forall₂ (fun start m => powell solver.interval objective
        (clipToLimit start limit) (Array.replicate n blackRadius) blackTolerance blackSweeps =
          .ok m) starts mins ∧ result = bestFrom best mins := by
  induction starts generalizing best with
  | nil =>
      rw [blackTrials]
      constructor
      · intro h
        cases h
        exact ⟨[], .nil, rfl⟩
      · rintro ⟨mins, trials, rfl⟩
        cases trials
        rfl
  | cons start starts ih =>
      rw [blackTrials]
      cases trial : powell solver.interval objective (clipToLimit start limit)
          (Array.replicate n blackRadius) blackTolerance blackSweeps with
      | error e =>
          dsimp only
          constructor
          · intro h
            cases h
          · rintro ⟨mins, trials, -⟩
            cases trials with
            | cons first _ => exact absurd (trial.symm.trans first) (by simp)
      | ok m =>
          dsimp only
          rw [ih]
          constructor
          · rintro ⟨mins, trials, rfl⟩
            exact ⟨m :: mins, .cons trial trials, rfl⟩
          · rintro ⟨mins, trials, rfl⟩
            cases trials with
            | @cons _ m' _ mins' first others =>
                cases Except.ok.inj (trial.symm.trans first)
                exact ⟨mins', others, rfl⟩

theorem blackTrials_error {objective : Array α → α} {limit : Option α} {n : ℕ}
    {starts : List (Array α)} {best : Option (Minimum α)} {e : ModelError α}
    (h : blackTrials solver objective limit n best starts = .error e) :
    ∃ cause, e = .minimize cause := by
  induction starts generalizing best with
  | nil => cases h
  | cons start starts ih =>
      rw [blackTrials] at h
      split at h
      · cases h
        exact ⟨_, rfl⟩
      · exact ih h

/-- The points of a printer whose best trial ended so. -/
def printerPoints (r : Response α) (best : Minimum α) : Neutrals α :=
  let black := r.point (clipToLimit (best.point.map saturate) r.limit)
  ⟨r.point (Array.replicate r.channels 0), black, match inkBlackDev r with
    | some dev => r.point dev
    | none => black⟩

theorem printerNeutrals_of_trials {mins : List (Minimum α)} (h : Trials solver r t mins) :
    ∃ best, bestFrom none mins = some best ∧ printerNeutrals solver r t =
      if t.blackFail < best.value then .error (.blackPoint (some best.value))
      else .ok (printerPoints r best) := by
  obtain ⟨best, found⟩ := bestFrom_isSome h.ne_nil
  refine ⟨best, found, ?_⟩
  have ran := blackTrials_eq_ok_iff.mpr ⟨mins, h, found.symm⟩
  unfold printerNeutrals
  dsimp only
  rw [ran]
  rfl

theorem printerNeutrals_eq_ok {points : Neutrals α}
    (h : printerNeutrals solver r t = .ok points) :
    ∃ mins best, Trials solver r t mins ∧ bestFrom none mins = some best ∧
      points = printerPoints r best := by
  unfold printerNeutrals at h
  dsimp only at h
  split at h
  · cases h
  · cases h
  · rename_i best ran
    obtain ⟨mins, trials, found⟩ := blackTrials_eq_ok_iff.mp ran
    split at h
    · cases h
    · cases h
      exact ⟨mins, best, trials, found.symm, rfl⟩

/-- The search never ends without a trial. -/
theorem printerNeutrals_ne_none : printerNeutrals solver r t ≠ .error (.blackPoint none) := by
  intro h
  unfold printerNeutrals at h
  dsimp only at h
  split at h
  · rename_i failed
    cases h
    obtain ⟨cause, other⟩ := blackTrials_error failed
    cases other
  · rename_i ran
    obtain ⟨mins, trials, found⟩ := blackTrials_eq_ok_iff.mp ran
    obtain ⟨best, some⟩ := bestFrom_isSome (Trials.ne_nil trials)
    exact absurd (found.trans some) (by simp)
  · split at h <;> cases h

end Trials

/-- What the search for the black of a printer minimizes. -/
noncomputable def printerObjective (r : Response ℝ) (t : Tuning ℝ) (dev : Array ℝ) : ℝ :=
  blackObjective r t (r.lookupLab (Array.replicate r.channels 0)) (neutralTarget r) dev

theorem blackTrial_eq (solver : Solver ℝ) (r : Response ℝ) (t : Tuning ℝ) (start : Array ℝ) :
    blackTrial solver r t start = powell solver.interval (printerObjective r t)
      (clipToLimit start r.limit) (Array.replicate r.channels blackRadius) blackTolerance
      blackSweeps := by
  rw [blackTrial, Scalar.real_zero]
  rfl

theorem blackTrial_value {solver : Solver ℝ} (truthful : IsTruthfulInterval solver.interval)
    {r : Response ℝ} {t : Tuning ℝ} {start : Array ℝ} {m : Minimum ℝ}
    (ran : blackTrial solver r t start = .ok m) : m.value = printerObjective r t m.point := by
  rw [blackTrial_eq] at ran
  exact powell_value truthful ran

section Honest

variable {solver : Solver ℝ} {r : Response ℝ} {t : Tuning ℝ} (honest : IsHonest solver.interval)
include honest

theorem blackTrial_descends (hr : r.channels ≠ 0) {start : Array ℝ}
    (size : start.size = r.channels) :
    ∃ m, blackTrial solver r t start = .ok m ∧ m.value = printerObjective r t m.point := by
  have clipped : (clipToLimit start r.limit).size = r.channels :=
    (clipToLimit_size start r.limit).trans size
  have radii : (Array.replicate r.channels (blackRadius : ℝ)).size = r.channels :=
    Array.size_replicate
  obtain ⟨m, ran, value, -⟩ := powell_descends honest (f := printerObjective r t)
    (clipped ▸ hr) (clipped.trans radii.symm) blackTolerance blackSweeps
  exact ⟨m, (blackTrial_eq solver r t start).trans ran, value⟩

/-- With an honest interval search all trials succeed, and their values are those of the
objective at their end points. -/
theorem exists_trials (hr : r.channels ≠ 0)
    (supplied : (solver.uniform t.blackSeed (max t.blackRestarts 1 * r.channels)).size =
      max t.blackRestarts 1 * r.channels) :
    ∃ mins, Trials solver r t mins ∧ ∀ m ∈ mins, m.value = printerObjective r t m.point := by
  have run (starts : List (Array ℝ)) (sizes : ∀ start ∈ starts, start.size = r.channels) :
      ∃ mins, List.Forall₂ (fun start m => blackTrial solver r t start = .ok m) starts mins ∧
        ∀ m ∈ mins, m.value = printerObjective r t m.point := by
    induction starts with
    | nil => exact ⟨[], .nil, by simp⟩
    | cons start starts ih =>
        obtain ⟨size, sizes⟩ := List.forall_mem_cons.mp sizes
        obtain ⟨m, ran, value⟩ := blackTrial_descends honest (t := t) hr size
        obtain ⟨mins, trials, values⟩ := ih sizes
        exact ⟨m :: mins, .cons ran trials, List.forall_mem_cons.mpr ⟨value, values⟩⟩
  exact run _ (blackStarts_size supplied)

end Honest

/-- The first of the outcomes with the least value. -/
def IsFirstLeast (best : Minimum ℝ) (mins : List (Minimum ℝ)) : Prop :=
  ∃ before after, mins = before ++ best :: after ∧
    (∀ m ∈ before, best.value < m.value) ∧ ∀ m ∈ after, best.value ≤ m.value

theorem IsFirstLeast.mem {best : Minimum ℝ} {mins : List (Minimum ℝ)}
    (h : IsFirstLeast best mins) : best ∈ mins := by
  obtain ⟨before, after, rfl, -⟩ := h
  exact List.mem_append_right before List.mem_cons_self

theorem IsFirstLeast.le {best : Minimum ℝ} {mins : List (Minimum ℝ)} (h : IsFirstLeast best mins) :
    ∀ m ∈ mins, best.value ≤ m.value := by
  obtain ⟨before, after, rfl, above, notBelow⟩ := h
  intro m mem
  rcases List.mem_append.mp mem with earlier | here
  · exact (above m earlier).le
  · rcases List.mem_cons.mp here with rfl | later
    · exact le_rfl
    · exact notBelow m later

theorem bestFrom_some_isFirstLeast {mins : List (Minimum ℝ)} {b best : Minimum ℝ}
    (found : bestFrom (some b) mins = some best) : IsFirstLeast best (b :: mins) := by
  induction mins generalizing b with
  | nil =>
      cases found
      exact ⟨[], [], rfl, by simp, by simp⟩
  | cons m mins ih =>
      have rest : bestFrom (some (betterOf (some b) m)) mins = some best := found
      rw [betterOf] at rest
      split at rest
      · rename_i lower
        have least := ih rest
        have below := least.le m List.mem_cons_self
        obtain ⟨before, after, same, above, notBelow⟩ := least
        refine ⟨b :: before, after, by rw [same, List.cons_append], ?_, notBelow⟩
        intro m' mem
        rcases List.mem_cons.mp mem with rfl | earlier
        · exact below.trans_lt lower
        · exact above m' earlier
      · rename_i notLower
        have notLower := not_lt.mp notLower
        obtain ⟨before, after, same, above, notBelow⟩ := ih rest
        cases before with
        | nil =>
            obtain ⟨rfl, rfl⟩ := List.cons.inj same
            refine ⟨[], m :: mins, rfl, by simp, fun m' mem => ?_⟩
            rcases List.mem_cons.mp mem with rfl | later
            · exact notLower
            · exact notBelow m' later
        | cons b' before =>
            obtain ⟨rfl, rfl⟩ := List.cons.inj same
            have first := above b List.mem_cons_self
            refine ⟨b :: m :: before, after, rfl, fun m' mem => ?_, notBelow⟩
            rcases List.mem_cons.mp mem with rfl | mem
            · exact first
            · rcases List.mem_cons.mp mem with rfl | earlier
              · exact first.trans_le notLower
              · exact above m' (List.mem_cons_of_mem b earlier)

theorem bestFrom_isFirstLeast {mins : List (Minimum ℝ)} {best : Minimum ℝ}
    (found : bestFrom none mins = some best) : IsFirstLeast best mins := by
  cases mins with
  | nil => cases found
  | cons m mins => exact bestFrom_some_isFirstLeast found

end InkModel
