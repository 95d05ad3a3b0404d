import InkModel.Proofs.Exact
import InkModel.Proofs.Search.Line
import InkModel.Search.Powell

/-! # Direction set searches

A search moves its point and never changes the number of coordinates, whatever
the interval search answers. When the interval search answers with values of its
function, the search ends at a point that is no worse than its start, nor than
the end of its first direction.
-/

namespace InkModel

section Size

variable {α : Type} [Scalar α] {search : IntervalSearch α} {f : Array α → α}

theorem sweepFrom_size {dirs : List (Array α)} {i : Nat} {s s' : Sweep α}
    (h : sweepFrom search f i s dirs = .ok s') : s'.point.size = s.point.size := by
  induction dirs generalizing i s with
  | nil =>
      cases h
      rfl
  | cons dir dirs ih =>
      rw [sweepFrom] at h
      split at h
      · cases h
      · rename_i m found
        have moved := ih h
        rw [← lineMinimize_size found]
        split at moved <;> exact moved

theorem afterSweep_size {st st' : PowellState α} {s : Sweep α}
    (h : afterSweep search f st s = .ok st') : st'.point.size = s.point.size := by
  unfold afterSweep at h
  dsimp only at h
  split at h
  · cases line : lineMinimize search f s.point (Array.zipWith (· - ·) s.point st.origin) with
    | error e =>
        rw [line] at h
        cases h
    | ok m =>
        rw [line] at h
        cases h
        exact lineMinimize_size line
  · cases h
    rfl

theorem powellSweeps_size {ftol : α} {fuel done : Nat} {st : PowellState α} {m : Minimum α}
    (h : powellSweeps search f ftol fuel done st = .ok m) : m.point.size = st.point.size := by
  induction fuel generalizing done st with
  | zero =>
      cases h
      rfl
  | succ fuel ih =>
      rw [powellSweeps] at h
      split at h
      · cases h
      · rename_i s swept
        have sweep := sweepFrom_size swept
        split at h
        · cases h
          exact sweep
        · split at h
          · cases h
          · rename_i st' after
            rw [ih h, afterSweep_size after, sweep]

/-- A search that succeeds had one radius for each coordinate, and its end point
has as many coordinates as its start. -/
theorem powell_size {p radii : Array α} {ftol : α} {maxIter : Nat} {m : Minimum α}
    (h : powell search f p radii ftol maxIter = .ok m) :
    p.size = radii.size ∧ m.point.size = p.size := by
  unfold powell at h
  split at h
  · cases h
  · rename_i setup
    unfold checkSetup at setup
    split at setup
    · cases setup
    · split at setup
      · cases setup
      · rename_i same
        dsimp only at h
        split at h
        · exact ⟨Decidable.not_not.mp same, powellSweeps_size h⟩
        · cases h

end Size

/-- An interval search that always answers, and with values of its function. -/
structure IsHonest (search : IntervalSearch ℝ) : Prop where
  answers : ∀ g lo hi, ∃ found, search g lo hi = .ok found
  value_eq : ∀ {g lo hi x}, search g lo hi = .ok (some x) → x.value = g x.step

/-! Steps along a line. -/

theorem bracketMiddle_le (g : ℝ → ℝ) :
    (bracketMiddle g).value ≤ g 0 ∧ (bracketMiddle g).value ≤ g 1 := by
  unfold bracketMiddle
  rw [Scalar.real_zero, Scalar.real_one]
  split
  · exact ⟨le_rfl, le_of_lt ‹_›⟩
  · exact ⟨not_lt.mp ‹_›, le_rfl⟩

theorem bracket_best_descends (g : ℝ → ℝ) :
    (bracket g).best.value = g (bracket g).best.step ∧ (bracket g).best.value ≤ g 0 ∧
      (bracket g).best.value ≤ g 1 := by
  obtain ⟨start, first⟩ := bracketMiddle_le g
  obtain ⟨value, same | below⟩ := bracket_best lt_trans g
  · rw [same] at value ⊢
    exact ⟨value, start, first⟩
  · exact ⟨value, below.le.trans start, below.le.trans first⟩

theorem alongLine_zero {p dir : Array ℝ} (size : dir.size = p.size) : alongLine p dir 0 = p := by
  refine Array.ext (by simp [alongLine]) fun i _ hi => ?_
  simp [alongLine, size ▸ hi]

section Descent

variable {search : IntervalSearch ℝ} (honest : IsHonest search) {f : Array ℝ → ℝ} {n : ℕ}

include honest

theorem lineMinimize_descends {p dir : Array ℝ} (size : dir.size = p.size) :
    ∃ m, lineMinimize search f p dir = .ok m ∧ m.value = f m.point ∧ m.value ≤ f p ∧
      m.value ≤ f (alongLine p dir 1) ∧ m.displacement.size = p.size := by
  have start : lineObjective f p dir 0 = f p := congrArg f (alongLine_zero size)
  obtain ⟨value, le, first⟩ := bracket_best_descends (lineObjective f p dir)
  rw [start] at le
  obtain ⟨found, answer⟩ := honest.answers (lineObjective f p dir)
    (bracket (lineObjective f p dir)).lo (bracket (lineObjective f p dir)).hi
  obtain ⟨m, ran, point, displacement, taken⟩ := lineMinimize_takes mul_comm size answer
  have better : m.value ≤ (bracket (lineObjective f p dir)).best.value := by
    rcases taken with best | ⟨-, better⟩
    · rw [best]
    · exact better
  refine ⟨m, ran, ?_, better.trans le, better.trans first, displacement⟩
  rw [point]
  rcases taken with best | ⟨rfl, -⟩
  · rwa [best] at value
  · exact honest.value_eq answer

theorem sweepFrom_descends {dirs : List (Array ℝ)} (sizes : ∀ dir ∈ dirs, dir.size = n) {i : ℕ}
    {s : Sweep ℝ} (size : s.point.size = n) (value : s.value = f s.point) :
    ∃ s', sweepFrom search f i s dirs = .ok s' ∧ s'.value = f s'.point ∧ s'.value ≤ s.value ∧
      ∀ dir ∈ dirs.head?, s'.value ≤ f (alongLine s.point dir 1) := by
  induction dirs generalizing i s with
  | nil => exact ⟨s, rfl, value, le_rfl, nofun⟩
  | cons dir dirs ih =>
      obtain ⟨dirSize, sizes⟩ := List.forall_mem_cons.mp sizes
      obtain ⟨m, found, same, le, first, -⟩ :=
        lineMinimize_descends honest (f := f) (dirSize.trans size.symm)
      have keeps : m.point.size = n := (lineMinimize_size found).trans size
      have start : m.value ≤ s.value := le.trans_eq value.symm
      have head : ∀ d ∈ (dir :: dirs).head?, m.value ≤ f (alongLine s.point d 1) := by
        rintro _ ⟨⟩
        exact first
      rw [sweepFrom, found]
      dsimp only
      split
      · obtain ⟨s', swept, same', le', -⟩ :=
          ih sizes (s := ⟨m.point, m.value, s.value - m.value, i⟩) keeps same
        exact ⟨s', swept, same', le'.trans start, fun d mem => le'.trans (head d mem)⟩
      · obtain ⟨s', swept, same', le', -⟩ :=
          ih sizes (s := { s with point := m.point, value := m.value }) keeps same
        exact ⟨s', swept, same', le'.trans start, fun d mem => le'.trans (head d mem)⟩

end Descent

/-- What a search keeps between its sweeps. -/
structure PowellState.Sound (f : Array ℝ → ℝ) (n : ℕ) (st : PowellState ℝ) : Prop where
  directions : ∀ dir ∈ st.directions, dir.size = n
  point : st.point.size = n
  origin : st.origin.size = n
  value : st.value = f st.point

theorem axisDirections_sizes {α : Type} [Scalar α] (radii : Array α) :
    ∀ dir ∈ axisDirections radii, dir.size = radii.size := by
  intro dir mem
  obtain ⟨i, hi, rfl⟩ := Array.mem_iff_getElem.mp mem
  simp [axisDirections]

/-- A search begins at its start, along the axes. -/
theorem PowellState.sound_start (f : Array ℝ → ℝ) {p radii : Array ℝ} (size : p.size = radii.size) :
    Sound f p.size ⟨axisDirections radii, p, f p, p⟩ where
  directions := fun dir mem => (axisDirections_sizes radii dir mem).trans size.symm
  point := rfl
  origin := rfl
  value := rfl

theorem replaceDirection_sizes {α : Type} {n : ℕ} {dirs : Array (Array α)} {dir : Array α}
    (sizes : ∀ d ∈ dirs, d.size = n) (size : dir.size = n) (i : ℕ) :
    ∀ d ∈ replaceDirection dirs i dir, d.size = n := by
  intro d mem
  unfold replaceDirection at mem
  rcases Array.mem_or_eq_of_mem_setIfInBounds mem with mem | rfl
  · rcases Array.mem_or_eq_of_mem_setIfInBounds mem with old | rfl
    · exact sizes d old
    · have nonempty : dirs.size - 1 < dirs.size := by
        by_contra none
        have empty : dirs = #[] := Array.eq_empty_of_size_eq_zero (by omega)
        subst empty
        simp at mem
      rw [Array.getD_eq_getD_getElem?, Array.getElem?_eq_getElem nonempty, Option.getD_some]
      exact sizes _ (Array.getElem_mem nonempty)
  · exact size

section Descent

variable {search : IntervalSearch ℝ} (honest : IsHonest search) {f : Array ℝ → ℝ} {n : ℕ}

include honest

theorem afterSweep_descends {st : PowellState ℝ} (sound : st.Sound f n) {s : Sweep ℝ}
    (size : s.point.size = n) (value : s.value = f s.point) :
    ∃ st', afterSweep search f st s = .ok st' ∧ st'.Sound f n ∧ st'.value ≤ s.value := by
  unfold afterSweep
  dsimp only
  split
  · have average : (Array.zipWith (· - ·) s.point st.origin).size = s.point.size := by
      simp [size, sound.origin]
    obtain ⟨m, found, same, le, -, displacement⟩ := lineMinimize_descends honest (f := f) average
    refine ⟨_, by rw [found]; rfl, ?_, le.trans_eq value.symm⟩
    exact {
      directions := replaceDirection_sizes sound.directions (displacement.trans size) _
      point := (lineMinimize_size found).trans size
      origin := size
      value := same }
  · exact ⟨_, rfl, ⟨sound.directions, size, size, value⟩, le_rfl⟩

theorem powellSweeps_descends (ftol : ℝ) (fuel done : ℕ) {st : PowellState ℝ}
    (sound : st.Sound f n) :
    ∃ m, powellSweeps search f ftol fuel done st = .ok m ∧ m.value = f m.point ∧
      m.value ≤ st.value ∧ (fuel ≠ 0 → ∀ dir ∈ st.directions.toList.head?,
        m.value ≤ f (alongLine st.point dir 1)) := by
  induction fuel generalizing done st with
  | zero => exact ⟨_, rfl, sound.value, le_rfl, fun none => absurd rfl none⟩
  | succ fuel ih =>
      obtain ⟨s, swept, value, le, first⟩ := sweepFrom_descends honest (f := f)
        (fun dir mem => sound.directions dir (Array.mem_toList_iff.mp mem)) (i := 0)
        (s := ⟨st.point, st.value, 0, 0⟩) sound.point sound.value
      have size : s.point.size = n := (sweepFrom_size swept).trans sound.point
      rw [powellSweeps]
      rw [Scalar.real_zero, swept]
      dsimp only
      split
      · exact ⟨_, rfl, value, le, fun _ => first⟩
      · obtain ⟨st', after, sound', le'⟩ := afterSweep_descends honest sound size value
        rw [after]
        obtain ⟨m, ran, value', below, -⟩ := ih (done + 1) sound'
        have sweep : m.value ≤ s.value := below.trans le'
        exact ⟨m, ran, value', sweep.trans le, fun _ dir mem => sweep.trans (first dir mem)⟩

omit honest in
theorem powell_eq {p radii : Array ℝ} (hp : p.size ≠ 0) (size : p.size = radii.size)
    (ftol : ℝ) (maxIter : ℕ) : powell search f p radii ftol maxIter =
      powellSweeps search f ftol maxIter 0 ⟨axisDirections radii, p, f p, p⟩ := by
  rw [powell, checkSetup, if_neg hp, if_neg (not_not.mpr size)]
  rfl

/-- With an honest interval search a search succeeds, and its value is the objective
at its end point and no larger than at its start. -/
theorem powell_descends {p radii : Array ℝ} (hp : p.size ≠ 0) (size : p.size = radii.size)
    (ftol : ℝ) (maxIter : ℕ) :
    ∃ m, powell search f p radii ftol maxIter = .ok m ∧ m.value = f m.point ∧ m.value ≤ f p := by
  obtain ⟨m, ran, value, le, -⟩ :=
    powellSweeps_descends honest ftol maxIter 0 (PowellState.sound_start f size)
  exact ⟨m, (powell_eq hp size ftol maxIter).trans ran, value, le⟩

/-- Nor is the end worse than a step of the first radius. -/
theorem powell_first {p radii : Array ℝ} (hp : p.size ≠ 0) (size : p.size = radii.size)
    {ftol : ℝ} {maxIter : ℕ} (sweeps : maxIter ≠ 0) {m : Minimum ℝ}
    (ran : powell search f p radii ftol maxIter = .ok m) {dir : Array ℝ}
    (first : dir ∈ (axisDirections radii).toList.head?) : m.value ≤ f (alongLine p dir 1) := by
  obtain ⟨m', ran', -, -, below⟩ :=
    powellSweeps_descends honest ftol maxIter 0 (PowellState.sound_start f size)
  rw [powell_eq hp size, ran'] at ran
  cases ran
  exact below sweeps dir first

end Descent

/-! Searches whose interval search may fail. -/

section Truthful

/-- An interval search that may fail, and otherwise answers with values of its function. -/
def IsTruthfulInterval (search : IntervalSearch ℝ) : Prop :=
  ∀ g lo hi x, search g lo hi = .ok (some x) → x.value = g x.step

theorem IsHonest.truthful {search : IntervalSearch ℝ} (honest : IsHonest search) :
    IsTruthfulInterval search :=
  fun _ _ _ _ found => honest.value_eq found

/-- The interval search that finds nothing where the given one fails. -/
def resilient (search : IntervalSearch ℝ) : IntervalSearch ℝ := fun g lo hi =>
  match search g lo hi with
  | .ok found => .ok found
  | .error _ => .ok none

variable {search : IntervalSearch ℝ} {f : Array ℝ → ℝ}

theorem resilient_honest (truthful : IsTruthfulInterval search) : IsHonest (resilient search) where
  answers g lo hi := by
    unfold resilient
    split <;> exact ⟨_, rfl⟩
  value_eq {g lo hi x} found := by
    unfold resilient at found
    split at found
    · rename_i answer
      rw [Except.ok.inj found] at answer
      exact truthful g lo hi x answer
    · cases found

/-! What succeeds with an interval search goes on the same without its failures. -/

theorem lineMinimize_resilient {p dir : Array ℝ} {m : LineMinimum ℝ}
    (h : lineMinimize search f p dir = .ok m) :
    lineMinimize (resilient search) f p dir = .ok m := by
  unfold lineMinimize at h ⊢
  cases answer : search (fun t => f (alongLine p dir t))
      (bracket fun t => f (alongLine p dir t)).lo (bracket fun t => f (alongLine p dir t)).hi with
  | error e =>
      simp only [answer] at h
      cases h
  | ok found =>
      simp only [answer] at h
      simp only [resilient, answer]
      exact h

theorem sweepFrom_resilient {dirs : List (Array ℝ)} {i : ℕ} {s s' : Sweep ℝ}
    (h : sweepFrom search f i s dirs = .ok s') :
    sweepFrom (resilient search) f i s dirs = .ok s' := by
  induction dirs generalizing i s with
  | nil => exact h
  | cons dir dirs ih =>
      rw [sweepFrom] at h ⊢
      split at h
      · cases h
      · rename_i m found
        rw [lineMinimize_resilient found]
        exact ih h

theorem afterSweep_resilient {st st' : PowellState ℝ} {s : Sweep ℝ}
    (h : afterSweep search f st s = .ok st') : afterSweep (resilient search) f st s = .ok st' := by
  unfold afterSweep at h ⊢
  dsimp only at h ⊢
  split at h
  · rename_i takes
    rw [if_pos takes]
    cases line : lineMinimize search f s.point (Array.zipWith (· - ·) s.point st.origin) with
    | error e =>
        rw [line] at h
        cases h
    | ok m =>
        rw [line] at h
        rw [lineMinimize_resilient line]
        exact h
  · rename_i stays
    rw [if_neg stays]
    exact h

theorem powellSweeps_resilient {ftol : ℝ} {fuel done : ℕ} {st : PowellState ℝ} {m : Minimum ℝ}
    (h : powellSweeps search f ftol fuel done st = .ok m) :
    powellSweeps (resilient search) f ftol fuel done st = .ok m := by
  induction fuel generalizing done st with
  | zero => exact h
  | succ fuel ih =>
      rw [powellSweeps] at h ⊢
      split at h
      · cases h
      · rename_i s swept
        rw [sweepFrom_resilient swept]
        dsimp only
        split at h
        · rename_i stalled
          rw [if_pos stalled]
          exact h
        · rename_i goesOn
          rw [if_neg goesOn]
          split at h
          · cases h
          · rename_i st' after
            rw [afterSweep_resilient after]
            exact ih h

/-- A search that succeeds ends with the objective of its point. -/
theorem powell_value (truthful : IsTruthfulInterval search) {p radii : Array ℝ} {ftol : ℝ}
    {maxIter : ℕ} {m : Minimum ℝ} (h : powell search f p radii ftol maxIter = .ok m) :
    m.value = f m.point := by
  obtain ⟨size, -⟩ := powell_size h
  have nonempty : p.size ≠ 0 := by
    intro empty
    rw [powell, checkSetup, if_pos empty] at h
    cases h
  obtain ⟨m', ran, value, -⟩ :=
    powell_descends (resilient_honest truthful) (f := f) nonempty size ftol maxIter
  rw [powell_eq nonempty size] at h ran
  cases (powellSweeps_resilient h).symm.trans ran
  exact value

end Truthful

end InkModel
