import InkModel.Proofs.Access
import InkModel.Proofs.Runs
import InkModel.Proofs.Search.Powell

/-! # Accesses of direction set searches

A search once more, with its accesses checked: the axes by index, every direction copied to a buffer
before it is searched, the average direction entry by entry, and the swap of directions with the
last one. All directions and points have as many coordinates as the start, so the search never
leaves its tables, whatever the interval search and the objective are.
-/

namespace InkModel

section Definitions

variable {α : Type} [Scalar α] (search : IntervalSearch α) (f : Array α → α)

def sweepFrom? (n i : ℕ) (s : Sweep α) :
    List (Array α) → Except (Failure (MinimizeError α)) (Sweep α)
  | [] => .ok s
  | dir :: dirs =>
    checked (copied? n dir) >>= fun buffer =>
      refusing (lineMinimize search f s.point buffer) >>= fun m =>
        let gain := s.value - m.value
        let s' : Sweep α :=
          if s.drop < gain then ⟨m.point, m.value, gain, i⟩
          else { s with point := m.point, value := m.value }
        sweepFrom? n (i + 1) s' dirs

/-- Swaps direction `i` with the last of `n` and copies `dir` over that. -/
def replaceDirection? {α : Type} (n : ℕ) (dirs : Array (Array α)) (i : ℕ) (dir : Array α) :
    Option (Array (Array α)) :=
  dirs[i]?.bind fun replaced => (n.psub 1).bind fun last => dirs[last]?.bind fun moved =>
    (copied? replaced.size dir).map fun dir => (dirs.setIfInBounds i moved).setIfInBounds last dir

def afterSweep? (n : ℕ) (st : PowellState α) (s : Sweep α) :
    Except (Failure (MinimizeError α)) (PowellState α) :=
  checked (combined? n (fun x x0 => 2 * x - x0) s.point st.origin) >>= fun beyond =>
    checked (combined? n (· - ·) s.point st.origin) >>= fun average =>
      checked (combined? n (fun x _ => x) s.point st.origin) >>= fun origin =>
        if takesAverage st.value s.value (f beyond) s.drop then
          refusing (lineMinimize search f s.point average) >>= fun m =>
            (checked (replaceDirection? n st.directions s.dropIndex m.displacement)).map
              fun directions => ⟨directions, m.point, m.value, origin⟩
        else .ok ⟨st.directions, s.point, s.value, origin⟩

def powellSweeps? (ftol : α) (n : ℕ) :
    (fuel done : ℕ) → PowellState α → Except (Failure (MinimizeError α)) (Minimum α)
  | 0, done, st => .ok ⟨st.point, st.value, done, false⟩
  | fuel + 1, done, st =>
    sweepFrom? search f n 0 ⟨st.point, st.value, 0, 0⟩ st.directions.toList >>= fun s =>
      if sweepStalled ftol st.value s.value then .ok ⟨s.point, s.value, done + 1, true⟩
      else afterSweep? search f n st s >>= fun st' => powellSweeps? ftol n fuel (done + 1) st'

def axisDirections? (n : ℕ) (radii : Array α) : Option (Array (Array α)) :=
  ((List.range n).mapM fun i => radii[i]?.bind fun r =>
    set? (Array.replicate n 0) i (usableRadius r)).map List.toArray

def powell? (p radii : Array α) (ftol : α) (maxIter : ℕ) :
    Except (Failure (MinimizeError α)) (Minimum α) :=
  refusing (checkSetup p.size radii.size) >>= fun _ =>
    checked (axisDirections? p.size radii) >>= fun directions =>
      let value := f p
      if Scalar.isFinite value then
        powellSweeps? search f ftol p.size maxIter 0 ⟨directions, p, value, p⟩
      else .error (.refused (.nonFinite value))

end Definitions

section Steps

variable {α : Type} [Scalar α] {search : IntervalSearch α} {f : Array α → α} {n : ℕ}

theorem sweepFrom?_eq {dirs : List (Array α)} (sizes : ∀ dir ∈ dirs, dir.size = n) (i : ℕ)
    (s : Sweep α) : sweepFrom? search f n i s dirs = refusing (sweepFrom search f i s dirs) := by
  induction dirs generalizing i s with
  | nil => rfl
  | cons dir dirs ih =>
      obtain ⟨size, sizes⟩ := List.forall_mem_cons.mp sizes
      rw [sweepFrom?, copied?_of_size size, checked_some_bind, sweepFrom]
      cases lineMinimize search f s.point dir with
      | error e => rfl
      | ok m => exact ih sizes _ _

/-- The direction of the largest drop is one of the directions. -/
theorem sweepFrom_dropIndex_lt {dirs : List (Array α)} {i : ℕ} {s s' : Sweep α}
    (inside : s.dropIndex < n) (total : i + dirs.length ≤ n)
    (h : sweepFrom search f i s dirs = .ok s') : s'.dropIndex < n := by
  induction dirs generalizing i s with
  | nil =>
      cases h
      exact inside
  | cons dir dirs ih =>
      rw [List.length_cons] at total
      rw [sweepFrom] at h
      split at h
      · cases h
      · refine ih ?_ (by omega) h
        split
        · exact (by omega : i < n)
        · exact inside

theorem replaceDirection_size {α : Type} (dirs : Array (Array α)) (i : ℕ) (dir : Array α) :
    (replaceDirection dirs i dir).size = dirs.size := by
  simp [replaceDirection]

theorem replaceDirection?_eq {α : Type} {dirs : Array (Array α)} {dir : Array α} {i : ℕ}
    (count : dirs.size = n) (sizes : ∀ d ∈ dirs, d.size = n) (inside : i < n)
    (size : dir.size = n) :
    replaceDirection? n dirs i dir = some (replaceDirection dirs i dir) := by
  have first : i < dirs.size := count ▸ inside
  have last : n - 1 < dirs.size := by omega
  have replaced : dirs[i].size = n := sizes _ (Array.getElem_mem first)
  rw [replaceDirection?, Array.getElem?_eq_getElem first, Option.bind_some,
    Nat.psub_eq_sub (Nat.one_le_of_lt inside), Option.bind_some, Array.getElem?_eq_getElem last,
    Option.bind_some, replaced, copied?_of_size size, Option.map_some, replaceDirection, count,
    Array.getD_eq_getD_getElem?, Array.getElem?_eq_getElem last, Option.getD_some]

/-- What a search keeps between its sweeps: as many directions as there are coordinates, and
as many coordinates in each. -/
structure PowellState.Sized (n : ℕ) (st : PowellState α) : Prop where
  count : st.directions.size = n
  directions : ∀ dir ∈ st.directions, dir.size = n
  point : st.point.size = n
  origin : st.origin.size = n

variable {st st' : PowellState α} {s : Sweep α}

theorem afterSweep_sized (sized : st.Sized n) (point : s.point.size = n)
    (h : afterSweep search f st s = .ok st') : st'.Sized n := by
  unfold afterSweep at h
  dsimp only at h
  split at h
  · obtain ⟨m, line, rfl⟩ := map_eq_ok_iff.mp h
    have average : m.displacement.size = n := by
      rw [lineMinimize_displacement_size line]
      simp [point, sized.origin]
    exact {
      count := (replaceDirection_size _ _ _).trans sized.count
      directions := replaceDirection_sizes sized.directions average _
      point := (lineMinimize_size line).trans point
      origin := point }
  · cases h
    exact ⟨sized.count, sized.directions, point, point⟩

theorem afterSweep?_eq (sized : st.Sized n) (point : s.point.size = n) (drop : s.dropIndex < n) :
    afterSweep? search f n st s = refusing (afterSweep search f st s) := by
  have moved : Array.zipWith (fun x _ => x) s.point st.origin = s.point := by
    refine Array.ext (by simp [point, sized.origin]) fun j _ _ => by simp
  rw [afterSweep?, combined?_eq point sized.origin, checked_some_bind,
    combined?_eq point sized.origin, checked_some_bind, combined?_eq point sized.origin,
    checked_some_bind, moved, afterSweep]
  dsimp only
  split
  · cases line : lineMinimize search f s.point (Array.zipWith (· - ·) s.point st.origin) with
    | error e => rfl
    | ok m =>
        have average : m.displacement.size = n := by
          rw [lineMinimize_displacement_size line]
          simp [point, sized.origin]
        change (checked (replaceDirection? n st.directions s.dropIndex m.displacement)).map _ = _
        rw [replaceDirection?_eq sized.count sized.directions drop average]
        rfl
  · rfl

theorem powellSweeps?_eq (ftol : α) (fuel done : ℕ) (positive : 0 < n) (sized : st.Sized n) :
    powellSweeps? search f ftol n fuel done st =
      refusing (powellSweeps search f ftol fuel done st) := by
  induction fuel generalizing done st with
  | zero => rfl
  | succ fuel ih =>
      rw [powellSweeps?, sweepFrom?_eq fun dir mem =>
        sized.directions dir (Array.mem_toList_iff.mp mem), powellSweeps]
      cases swept : sweepFrom search f 0 ⟨st.point, st.value, 0, 0⟩ st.directions.toList with
      | error e => rfl
      | ok s =>
          have point : s.point.size = n := (sweepFrom_size swept).trans sized.point
          have total : 0 + st.directions.toList.length ≤ n := by simp [sized.count]
          have drop : s.dropIndex < n := sweepFrom_dropIndex_lt positive total swept
          change ite _ _ _ = refusing (ite _ _ _)
          split
          · rfl
          · rw [afterSweep?_eq sized point drop]
            cases after : afterSweep search f st s with
            | error e => rfl
            | ok st' => exact ih _ (afterSweep_sized sized point after)

theorem axisDirections?_eq {radii : Array α} (size : radii.size = n) :
    axisDirections? n radii = some (axisDirections radii) := by
  subst size
  have length : (axisDirections radii).toList.length = radii.size := by simp [axisDirections]
  have axes : (List.range radii.size).mapM (fun i => radii[i]?.bind fun r =>
      set? (Array.replicate radii.size 0) i (usableRadius r)) =
        some (axisDirections radii).toList := by
    rw [← length]
    refine mapM_range_eq_some fun i inside => ?_
    rw [length] at inside ⊢
    rw [Array.getElem?_eq_getElem inside, Option.bind_some, set?_of_lt (by simpa using inside)]
    simp [axisDirections, inside]
  rw [axisDirections?, axes, Option.map_some, Array.toArray_toList]

theorem PowellState.sized_start {radii : Array α} (size : radii.size = n) {p : Array α}
    (point : p.size = n) (value : α) : Sized n ⟨axisDirections radii, p, value, p⟩ where
  count := by simp [axisDirections, size]
  directions := fun dir mem => (axisDirections_sizes radii dir mem).trans size
  point := point
  origin := point

end Steps

/-- A search never leaves its tables: it does the same whether its accesses are checked or not. -/
theorem powell?_eq {α : Type} [Scalar α] (search : IntervalSearch α) (f : Array α → α)
    (p radii : Array α) (ftol : α) (maxIter : ℕ) :
    powell? search f p radii ftol maxIter = refusing (powell search f p radii ftol maxIter) := by
  rw [powell?, powell]
  cases setup : checkSetup (α := α) p.size radii.size with
  | error e => rfl
  | ok u =>
      obtain ⟨positive, size⟩ : 0 < p.size ∧ radii.size = p.size := by
        unfold checkSetup at setup
        split at setup
        · cases setup
        · split at setup
          · cases setup
          · omega
      change checked (axisDirections? p.size radii) >>= _ = _
      rw [axisDirections?_eq size, checked_some_bind]
      dsimp only
      split
      · exact powellSweeps?_eq ftol maxIter 0 positive (PowellState.sized_start size rfl _)
      · rfl

end InkModel
