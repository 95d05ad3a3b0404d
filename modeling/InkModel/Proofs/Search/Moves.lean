import InkModel.Proofs.Search.Powell

/-! # The course of a direction set search

A search is a path of line minimizations, along the directions of its sweeps and along the
average directions between them. With an honest interval search every one of them reports the
objective where it ends and none goes uphill.
-/

namespace InkModel

section Path

variable {α : Type} [Scalar α]

/-- A line minimization in the course of a search. -/
structure Move (α : Type) where
  start : Array α
  direction : Array α
  found : LineMinimum α

/-- The line minimizations of one sweep from a point, up to one that fails. -/
def sweepMoves (search : IntervalSearch α) (f : Array α → α) (p : Array α) :
    List (Array α) → List (Move α)
  | [] => []
  | dir :: dirs =>
    match lineMinimize search f p dir with
    | .error _ => []
    | .ok m => ⟨p, dir, m⟩ :: sweepMoves search f m.point dirs

/-- The line minimization along the average direction of a sweep, when it is made. -/
def averageMoves (search : IntervalSearch α) (f : Array α → α) (st : PowellState α)
    (s : Sweep α) : List (Move α) :=
  let far := f (Array.zipWith (fun x x0 => 2 * x - x0) s.point st.origin)
  if takesAverage st.value s.value far s.drop then
    sweepMoves search f s.point [Array.zipWith (· - ·) s.point st.origin]
  else []

/-- The line minimizations of at most `fuel` sweeps, with those between the sweeps. -/
def movesFrom (search : IntervalSearch α) (f : Array α → α) (ftol : α) :
    (fuel : ℕ) → PowellState α → List (Move α)
  | 0, _ => []
  | fuel + 1, st =>
    sweepMoves search f st.point st.directions.toList ++
      match sweepFrom search f 0 ⟨st.point, st.value, 0, 0⟩ st.directions.toList with
      | .error _ => []
      | .ok s =>
        if sweepStalled ftol st.value s.value then []
        else
          averageMoves search f st s ++
            match afterSweep search f st s with
            | .error _ => []
            | .ok st' => movesFrom search f ftol fuel st'

/-- The line minimizations of a search from `p`, in their order. -/
def powellMoves (search : IntervalSearch α) (f : Array α → α) (p radii : Array α) (ftol : α)
    (maxIter : ℕ) : List (Move α) :=
  movesFrom search f ftol maxIter ⟨axisDirections radii, p, f p, p⟩

/-- Moves from one point to another, each from where the last one ended. -/
def Leads : List (Move α) → Array α → Array α → Prop
  | [], p, q => p = q
  | move :: moves, p, q => move.start = p ∧ Leads moves move.found.point q

omit [Scalar α] in
theorem Leads.append {moves moves' : List (Move α)} {p q r : Array α} (h : Leads moves p q)
    (h' : Leads moves' q r) : Leads (moves ++ moves') p r := by
  induction moves generalizing p with
  | nil =>
      obtain rfl : p = q := h
      exact h'
  | cons move moves ih => exact ⟨h.1, ih h.2⟩

variable {search : IntervalSearch α} {f : Array α → α}

theorem sweepFrom_leads {dirs : List (Array α)} {i : ℕ} {s s' : Sweep α}
    (h : sweepFrom search f i s dirs = .ok s') :
    Leads (sweepMoves search f s.point dirs) s.point s'.point := by
  induction dirs generalizing i s with
  | nil =>
      cases h
      exact rfl
  | cons dir dirs ih =>
      rw [sweepFrom] at h
      rw [sweepMoves]
      cases found : lineMinimize search f s.point dir with
      | error e =>
          rw [found] at h
          cases h
      | ok m =>
          rw [found] at h
          refine ⟨rfl, ?_⟩
          have rest := ih h
          split at rest <;> exact rest

theorem afterSweep_leads {st st' : PowellState α} {s : Sweep α}
    (h : afterSweep search f st s = .ok st') :
    Leads (averageMoves search f st s) s.point st'.point := by
  unfold afterSweep at h
  unfold averageMoves
  dsimp only at h ⊢
  split at h
  · rename_i taken
    rw [if_pos taken, sweepMoves]
    cases line : lineMinimize search f s.point (Array.zipWith (· - ·) s.point st.origin) with
    | error e =>
        rw [line] at h
        cases h
    | ok m =>
        rw [line] at h
        cases h
        exact ⟨rfl, rfl⟩
  · rename_i left
    rw [if_neg left]
    cases h
    exact rfl

theorem powellSweeps_leads {ftol : α} {fuel done : ℕ} {st : PowellState α} {m : Minimum α}
    (h : powellSweeps search f ftol fuel done st = .ok m) :
    Leads (movesFrom search f ftol fuel st) st.point m.point := by
  induction fuel generalizing done st with
  | zero =>
      cases h
      exact rfl
  | succ fuel ih =>
      rw [powellSweeps] at h
      rw [movesFrom]
      cases swept : sweepFrom search f 0 ⟨st.point, st.value, 0, 0⟩ st.directions.toList with
      | error e =>
          rw [swept] at h
          cases h
      | ok s =>
          rw [swept] at h
          refine (sweepFrom_leads swept).append ?_
          dsimp only at h ⊢
          by_cases stalled : sweepStalled ftol st.value s.value = true
          · rw [if_pos stalled] at h ⊢
            cases h
            exact rfl
          · rw [if_neg stalled] at h ⊢
            cases after : afterSweep search f st s with
            | error e =>
                rw [after] at h
                cases h
            | ok st' =>
                rw [after] at h
                exact (afterSweep_leads after).append (ih h)

/-- A search that is not converged has used up its sweeps. -/
theorem powellSweeps_iterations {ftol : α} {fuel done : ℕ} {st : PowellState α} {m : Minimum α}
    (h : powellSweeps search f ftol fuel done st = .ok m) :
    m.iterations ≤ done + fuel ∧ (m.converged = false → m.iterations = done + fuel) := by
  induction fuel generalizing done st with
  | zero =>
      cases h
      exact ⟨le_rfl, fun _ => rfl⟩
  | succ fuel ih =>
      rw [powellSweeps] at h
      split at h
      · cases h
      · split at h
        · cases h
          exact ⟨Nat.add_le_add_left (Nat.succ_le_succ fuel.zero_le) done,
            fun unconverged => by cases unconverged⟩
        · split at h
          · cases h
          · obtain ⟨bound, used⟩ := ih h
            exact ⟨by omega, fun unconverged => by rw [used unconverged]; omega⟩

end Path

/-- A line minimization that reports the objective where it ends, at most that where it began. -/
structure Move.Descends (search : IntervalSearch ℝ) (f : Array ℝ → ℝ) (move : Move ℝ) : Prop where
  made : lineMinimize search f move.start move.direction = .ok move.found
  value : move.found.value = f move.found.point
  le : move.found.value ≤ f move.start

section Descent

variable {search : IntervalSearch ℝ} (honest : IsHonest search) {f : Array ℝ → ℝ} {n : ℕ}

include honest

theorem sweepMoves_descend {dirs : List (Array ℝ)} (sizes : ∀ dir ∈ dirs, dir.size = n)
    {p : Array ℝ} (size : p.size = n) :
    ∀ move ∈ sweepMoves search f p dirs, move.Descends search f := by
  induction dirs generalizing p with
  | nil => exact fun _ mem => by cases mem
  | cons dir dirs ih =>
      obtain ⟨dirSize, sizes⟩ := List.forall_mem_cons.mp sizes
      obtain ⟨m, found, value, le, -⟩ :=
        lineMinimize_descends honest (f := f) (dirSize.trans size.symm)
      rw [sweepMoves, found]
      refine List.forall_mem_cons.mpr ⟨⟨found, value, le⟩, ?_⟩
      exact ih sizes ((lineMinimize_size found).trans size)

theorem averageMoves_descend {st : PowellState ℝ} (sound : st.Sound f n) {s : Sweep ℝ}
    (size : s.point.size = n) :
    ∀ move ∈ averageMoves search f st s, move.Descends search f := by
  unfold averageMoves
  dsimp only
  split
  · refine sweepMoves_descend honest (n := n) ?_ size
    intro dir mem
    rw [List.mem_singleton.mp mem]
    simp [size, sound.origin]
  · exact fun _ mem => by cases mem

theorem movesFrom_descend (ftol : ℝ) (fuel : ℕ) {st : PowellState ℝ} (sound : st.Sound f n) :
    ∀ move ∈ movesFrom search f ftol fuel st, move.Descends search f := by
  induction fuel generalizing st with
  | zero => exact fun _ mem => by cases mem
  | succ fuel ih =>
      have directions (dir : Array ℝ) (mem : dir ∈ st.directions.toList) : dir.size = n :=
        sound.directions dir (Array.mem_toList_iff.mp mem)
      obtain ⟨s, swept, value, -⟩ := sweepFrom_descends honest (f := f) directions (i := 0)
        (s := ⟨st.point, st.value, 0, 0⟩) sound.point sound.value
      have size : s.point.size = n := (sweepFrom_size swept).trans sound.point
      obtain ⟨st', after, sound', -⟩ := afterSweep_descends honest sound size value
      rw [movesFrom, Scalar.real_zero, swept]
      dsimp only
      rw [after]
      refine List.forall_mem_append.mpr ⟨sweepMoves_descend honest directions sound.point, ?_⟩
      split
      · exact fun _ mem => by cases mem
      · exact List.forall_mem_append.mpr ⟨averageMoves_descend honest sound size, ih sound'⟩

/-- With an honest interval search a search succeeds within its sweeps, its value is the objective
at its end point and no larger than at its start, and so it is with every line minimization on the
path there. -/
theorem powell_path_descends (f : Array ℝ → ℝ) {p radii : Array ℝ} (nonempty : p.size ≠ 0)
    (size : p.size = radii.size) (ftol : ℝ) (maxIter : ℕ) :
    ∃ m, powell search f p radii ftol maxIter = .ok m ∧ m.value = f m.point ∧ m.value ≤ f p ∧
      m.iterations ≤ maxIter ∧ (m.converged = false → m.iterations = maxIter) ∧
      Leads (powellMoves search f p radii ftol maxIter) p m.point ∧
      ∀ move ∈ powellMoves search f p radii ftol maxIter, move.Descends search f := by
  obtain ⟨m, ran, value, le⟩ := powell_descends honest (f := f) nonempty size ftol maxIter
  have sweeps : powellSweeps search f ftol maxIter 0 ⟨axisDirections radii, p, f p, p⟩ = .ok m := by
    rw [powell, checkSetup, if_neg nonempty, if_neg (not_not.mpr size)] at ran
    exact ran
  obtain ⟨bound, used⟩ := powellSweeps_iterations sweeps
  rw [Nat.zero_add] at bound used
  exact ⟨m, ran, value, le, bound, used, powellSweeps_leads sweeps,
    movesFrom_descend honest ftol maxIter (PowellState.sound_start f size)⟩

end Descent

/-- An interval search that tries the golden section of the interval alone. -/
def goldenSearch {α : Type} [Scalar α] : IntervalSearch α := fun g lo hi =>
  let golden := lo + (3 - Scalar.sqrt 5) / 2 * (hi - lo)
  .ok (some ⟨golden, g golden⟩)

theorem goldenSearch_honest : IsHonest (goldenSearch : IntervalSearch ℝ) where
  answers _ _ _ := ⟨_, rfl⟩
  value_eq h := by
    cases h
    rfl

/-- A parabola whose bottom is the golden section of the first bracket from 0, so that a search
that begins with that section finds nothing better. -/
def goldenValley {α : Type} [Scalar α] (p : Array α) : α :=
  Scalar.sq (p.getD 0 0 - (3 - Scalar.sqrt 5) / 2 * (1 + 1.618034))

theorem powell_path_descends_goldenValley :
    ∃ m : Minimum ℝ,
      powell goldenSearch goldenValley #[0] #[1] 0 1 = .ok m ∧ m.value = goldenValley m.point ∧
      m.value ≤ goldenValley #[0] ∧ m.iterations ≤ 1 ∧ (m.converged = false → m.iterations = 1) ∧
      Leads (powellMoves goldenSearch goldenValley #[0] #[1] 0 1) #[0] m.point ∧
      ∀ move ∈ powellMoves goldenSearch goldenValley #[0] #[1] 0 1,
        move.Descends goldenSearch goldenValley := by
  have nonempty : (#[0] : Array ℝ).size ≠ 0 := Nat.one_ne_zero
  have size : (#[0] : Array ℝ).size = (#[1] : Array ℝ).size := rfl
  exact powell_path_descends goldenSearch_honest goldenValley nonempty size 0 1

end InkModel
