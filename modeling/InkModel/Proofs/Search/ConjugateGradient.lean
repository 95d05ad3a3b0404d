import InkModel.Proofs.Extended
import InkModel.Search.ConjugateGradient

/-! # The course of a gradient search

A gradient search makes one cycle after another. Each cycle uses up iterations, but for one that
fails and sends the search into single steps, so there are few. Whatever the cycles answer, the
search takes only points that are better than its own, and so it ends at the best of them.
-/

namespace InkModel

section Cycles

variable {α : Type} [Scalar α]

/-- Where the cycles of a search stand. -/
structure CycleState (α : Type) where
  /-- Iterations of a cycle. -/
  span : ℕ
  /-- Iterations behind. -/
  used : ℕ
  point : Array α
  value : α

/-- A cycle in the course of a search. -/
structure CycleCall (α : Type) where
  start : Array α
  /-- The objective at the start. -/
  value : α
  /-- Iterations that the cycle may make. -/
  steps : ℕ
  answer : Except String (Cycle α)

/-- Whether a cycle has found a better value. -/
def CycleCall.Improves (call : CycleCall α) : Prop :=
  ∃ run, call.answer = .ok run ∧ run.value < call.value

namespace CycleState

/-- The next cycle. -/
def call (cycle : CycleSearch α) (pb : Problem α) (maxIter : ℕ) (s : CycleState α) : CycleCall α :=
  let steps := min s.span (maxIter - s.used)
  ⟨s.point, s.value, steps, cycle pb s.point steps⟩

/-- The state behind a cycle that answers. -/
def after (s : CycleState α) (run : Cycle α) : CycleState α where
  span := s.span
  used := s.used + max run.iterations 1
  point := if run.value < s.value then run.best else s.point
  value := if run.value < s.value then run.value else s.value

/-- Only a better point is taken. -/
theorem after_cases (s : CycleState α) (run : Cycle α) :
    (run.value < s.value ∧ (s.after run).point = run.best ∧ (s.after run).value = run.value) ∨
      (¬run.value < s.value ∧ (s.after run).point = s.point ∧ (s.after run).value = s.value) := by
  by_cases better : run.value < s.value
  · exact .inl ⟨better, if_pos better, if_pos better⟩
  · exact .inr ⟨better, if_neg better, if_neg better⟩

end CycleState

/-- Cycles from a state on, with all that are made, and what they find. -/
inductive Cycles (cycle : CycleSearch α) (pb : Problem α) (ftol : α) (maxIter : ℕ) :
    CycleState α → List (CycleCall α) → Minimum α → Prop
  /-- There are no iterations left. -/
  | usedUp {s : CycleState α} (spent : maxIter ≤ s.used) :
      Cycles cycle pb ftol maxIter s [] ⟨s.point, s.value, s.used, false⟩
  /-- A longer cycle fails, and single steps follow. -/
  | fallsBack {s : CycleState α} {e : String} {calls : List (CycleCall α)} {m : Minimum α}
      (left : s.used < maxIter) (fails : (s.call cycle pb maxIter).answer = .error e)
      (longer : 1 < s.span) (rest : Cycles cycle pb ftol maxIter { s with span := 1 } calls m) :
      Cycles cycle pb ftol maxIter s (s.call cycle pb maxIter :: calls) m
  /-- A single step fails. -/
  | stuck {s : CycleState α} {e : String} (left : s.used < maxIter)
      (fails : (s.call cycle pb maxIter).answer = .error e) (single : s.span ≤ 1) :
      Cycles cycle pb ftol maxIter s [s.call cycle pb maxIter] ⟨s.point, s.value, s.used, true⟩
  /-- A cycle ends early or gains too little. -/
  | settles {s : CycleState α} {run : Cycle α} (left : s.used < maxIter)
      (found : (s.call cycle pb maxIter).answer = .ok run)
      (last : (cycleStalled ftol s.value (s.after run).value || !run.hitLimit) = true) :
      Cycles cycle pb ftol maxIter s [s.call cycle pb maxIter]
        ⟨(s.after run).point, (s.after run).value, (s.after run).used, true⟩
  | goesOn {s : CycleState α} {run : Cycle α} {calls : List (CycleCall α)} {m : Minimum α}
      (left : s.used < maxIter) (found : (s.call cycle pb maxIter).answer = .ok run)
      (more : (cycleStalled ftol s.value (s.after run).value || !run.hitLimit) = false)
      (rest : Cycles cycle pb ftol maxIter (s.after run) calls m) :
      Cycles cycle pb ftol maxIter s (s.call cycle pb maxIter :: calls) m

variable {cycle : CycleSearch α} {pb : Problem α} {ftol : α} {maxIter : ℕ}

variable (cycle pb ftol maxIter) in
/-- The loop is a course of cycles. -/
theorem cyclesFrom_cycles (span used : ℕ) (q : Array α) (value : α) :
    ∃ calls, Cycles cycle pb ftol maxIter ⟨span, used, q, value⟩ calls
      (cyclesFrom cycle pb ftol maxIter span used q value) := by
  fun_induction cyclesFrom cycle pb ftol maxIter span used q value with
  | case1 span used q value left e fails longer ih =>
      obtain ⟨calls, rest⟩ := ih
      exact ⟨_, .fallsBack left fails longer rest⟩
  | case2 span used q value left e fails single =>
      exact ⟨_, .stuck left fails (not_lt.mp single)⟩
  | case3 span used q value left run found used' better q' value' last =>
      have next : CycleState.after ⟨span, used, q, value⟩ run = ⟨span, used', q', value'⟩ := by
        simp [CycleState.after, used', q', value', better]
      have settled := Cycles.settles (s := ⟨span, used, q, value⟩) left found
        (by rw [next]; exact last)
      rw [next] at settled
      exact ⟨_, settled⟩
  | case4 span used q value left run found used' better q' value' more ih =>
      have next : CycleState.after ⟨span, used, q, value⟩ run = ⟨span, used', q', value'⟩ := by
        simp [CycleState.after, used', q', value', better]
      obtain ⟨calls, rest⟩ := ih
      refine ⟨_, .goesOn left found ?_ (next ▸ rest)⟩
      rw [next]
      exact Bool.eq_false_iff.mpr more
  | case5 span used q value spent =>
      exact ⟨_, .usedUp (not_lt.mp spent)⟩

namespace Cycles

variable {s : CycleState α} {calls : List (CycleCall α)} {m : Minimum α}

/-- Every cycle that answers uses up an iteration, and only one failure is not the last cycle. -/
theorem length_le (h : Cycles cycle pb ftol maxIter s calls m) :
    calls.length ≤ maxIter - s.used + if 1 < s.span then 1 else 0 := by
  induction h with
  | usedUp => exact Nat.zero_le _
  | fallsBack left fails longer rest ih =>
      rw [if_neg (lt_irrefl 1)] at ih
      rw [if_pos longer, List.length_cons]
      exact Nat.succ_le_succ ih
  | @stuck s e left fails single =>
      rw [List.length_singleton]
      omega
  | @settles s run left found last =>
      rw [List.length_singleton]
      omega
  | @goesOn s run calls m left found more rest ih =>
      have spent : maxIter - (s.after run).used + 1 ≤ maxIter - s.used := by
        have := le_max_right run.iterations 1
        simp only [CycleState.after]
        omega
      have same : (s.after run).span = s.span := rfl
      rw [same] at ih
      rw [List.length_cons]
      omega

/-- Without a better value the point stays. -/
theorem unmoved (h : Cycles cycle pb ftol maxIter s calls m)
    (idle : ∀ call ∈ calls, ¬call.Improves) : m.point = s.point := by
  have stays {s : CycleState α} {run : Cycle α}
      (found : (s.call cycle pb maxIter).answer = .ok run)
      (idle : ¬(s.call cycle pb maxIter).Improves) : (s.after run).point = s.point := by
    obtain ⟨better, -⟩ | ⟨-, stays, -⟩ := s.after_cases run
    · exact absurd ⟨run, found, better⟩ idle
    · exact stays
  induction h with
  | usedUp => rfl
  | fallsBack left fails longer rest ih => exact ih (List.forall_mem_cons.mp idle).2
  | stuck => rfl
  | settles left found last => exact stays found (List.forall_mem_cons.mp idle).1
  | goesOn left found more rest ih =>
      obtain ⟨first, others⟩ := List.forall_mem_cons.mp idle
      exact (ih others).trans (stays found first)

/-- The value never grows. -/
theorem descends [IsTrans α (· < ·)] (h : Cycles cycle pb ftol maxIter s calls m) :
    m.value = s.value ∨ m.value < s.value := by
  have step (s : CycleState α) (run : Cycle α) :
      (s.after run).value = s.value ∨ (s.after run).value < s.value := by
    obtain ⟨better, -, value⟩ | ⟨-, -, value⟩ := s.after_cases run
    · exact .inr (value ▸ better)
    · exact .inl value
  induction h with
  | usedUp => exact .inl rfl
  | fallsBack left fails longer rest ih => exact ih
  | stuck => exact .inl rfl
  | @settles s run => exact step s run
  | @goesOn s run calls m left found more rest ih =>
      rcases step s run with same | less
      · rwa [same] at ih
      · rcases ih with same | lesser
        · exact .inr (same ▸ less)
        · exact .inr (IsTrans.trans _ _ _ lesser less)

end Cycles

/-- A cycle that answers with a point among `n` coordinates, no more iterations than it may make,
and the objective at its point where that is better than at its start. -/
structure IsHonestCycle (cycle : CycleSearch α) (pb : Problem α) (n : ℕ) : Prop where
  size : ∀ {q steps run}, q.size = n → cycle pb q steps = .ok run → run.best.size = n
  iterations : ∀ {q steps run}, q.size = n → cycle pb q steps = .ok run → run.iterations ≤ steps
  value_eq : ∀ {q steps run}, q.size = n → cycle pb q steps = .ok run →
    run.value < pb.cost q → run.value = pb.cost run.best

/-- A cycle that may answer with any point among `n` coordinates, with the objective there where
that is better than at its start. -/
structure IsTruthfulCycle (cycle : CycleSearch α) (pb : Problem α) (n : ℕ) : Prop where
  size : ∀ {q steps run}, q.size = n → cycle pb q steps = .ok run → run.best.size = n
  value_eq : ∀ {q steps run}, q.size = n → cycle pb q steps = .ok run →
    run.value < pb.cost q → run.value = pb.cost run.best

theorem IsHonestCycle.truthful {n : ℕ} (honest : IsHonestCycle cycle pb n) :
    IsTruthfulCycle cycle pb n :=
  ⟨honest.size, honest.value_eq⟩

/-- A point with its own objective. -/
structure CycleState.Valued (pb : Problem α) (n : ℕ) (s : CycleState α) : Prop where
  point : s.point.size = n
  value : s.value = pb.cost s.point

section Truthful

variable {n : ℕ} (truthful : IsTruthfulCycle cycle pb n) {s : CycleState α}
include truthful

theorem CycleState.Valued.after (valued : s.Valued pb n) {run : Cycle α}
    (found : (s.call cycle pb maxIter).answer = .ok run) : (s.after run).Valued pb n := by
  obtain ⟨better, point, value⟩ | ⟨-, point, value⟩ := s.after_cases run
  · refine ⟨point ▸ truthful.size valued.point found, ?_⟩
    rw [point, value]
    exact truthful.value_eq valued.point found (valued.value ▸ better)
  · refine ⟨point ▸ valued.point, ?_⟩
    rw [point, value]
    exact valued.value

theorem Cycles.valued {calls : List (CycleCall α)} {m : Minimum α}
    (h : Cycles cycle pb ftol maxIter s calls m) (valued : s.Valued pb n) :
    m.point.size = n ∧ m.value = pb.cost m.point := by
  induction h with
  | usedUp spent => exact ⟨valued.point, valued.value⟩
  | fallsBack left fails longer rest ih => exact ih ⟨valued.point, valued.value⟩
  | stuck => exact ⟨valued.point, valued.value⟩
  | settles left found last =>
      have next := valued.after truthful found
      exact ⟨next.point, next.value⟩
  | goesOn left found more rest ih => exact ih (valued.after truthful found)

end Truthful

section Honest

variable {n : ℕ} (honest : IsHonestCycle cycle pb n) {s : CycleState α}
include honest

/-- An honest search uses no more iterations than it may, and all of them unless it has
converged. -/
theorem Cycles.iterations {calls : List (CycleCall α)} {m : Minimum α}
    (h : Cycles cycle pb ftol maxIter s calls m) (valued : s.Valued pb n)
    (used : s.used ≤ maxIter) :
    m.iterations ≤ maxIter ∧ (m.converged = false → m.iterations = maxIter) := by
  have within {s : CycleState α} {run : Cycle α} (valued : s.Valued pb n) (left : s.used < maxIter)
      (found : (s.call cycle pb maxIter).answer = .ok run) : (s.after run).used ≤ maxIter := by
    have bound := honest.iterations valued.point found
    have := min_le_right s.span (maxIter - s.used)
    simp only [CycleState.after]
    omega
  induction h with
  | usedUp spent => exact ⟨used, fun _ => used.antisymm spent⟩
  | fallsBack left fails longer rest ih => exact ih ⟨valued.point, valued.value⟩ used
  | stuck => exact ⟨used, nofun⟩
  | settles left found last => exact ⟨within valued left found, nofun⟩
  | goesOn left found more rest ih =>
      exact ih (valued.after honest.truthful found) (within valued left found)

end Honest

/-- Scaled coordinates lead back to the point. -/
theorem unscale_scaled {p scale : Array α} (size : p.size = scale.size)
    (exact : ∀ i (hp : i < p.size) (hs : i < scale.size), p[i] / scale[i] * scale[i] = p[i]) :
    Array.zipWith (· * ·) (Array.zipWith (· / ·) p scale) scale = p := by
  refine Array.ext (by simp [size]) fun i _ hp => ?_
  rw [Array.getElem_zipWith, Array.getElem_zipWith]
  exact exact i hp (size ▸ hp)

omit [Scalar α] in
theorem overwrite_of_size {old values : Array α} (size : values.size = old.size) :
    overwrite old values = values := by
  refine Array.ext (by simp [overwrite, size]) fun i _ hi => ?_
  simp [overwrite, hi]

omit [Scalar α] in
theorem checkSetup_eq_ok_iff {params radii : ℕ} :
    (checkSetup params radii : Except (MinimizeError α) Unit) = .ok () ↔
      params ≠ 0 ∧ params = radii := by
  unfold checkSetup
  split
  · simp_all
  · split <;> simp_all

variable (cycle pb ftol maxIter) in
/-- What a search in place answers, and the point behind it. -/
theorem descend_run (p radii : Array α) :
    (descend cycle pb radii ftol maxIter).run p =
      match checkSetup p.size radii.size with
      | .error e => .error e p
      | .ok _ =>
        let scale := radii.map usableRadius
        let inner := pb.scaled scale
        let q := Array.zipWith (· / ·) p scale
        let m := cyclesFrom cycle inner ftol maxIter p.size 0 q (inner.cost q)
        let p' := overwrite p (Array.zipWith (· * ·) m.point scale)
        if Scalar.isFinite (inner.cost q) then
          .ok { m with point := p', iterations := min m.iterations maxIter } p'
        else .error (.nonFinite (inner.cost q)) p := by
  unfold descend
  simp only [EStateM.run_bind, EStateM.run_get]
  cases checkSetup p.size radii.size with
  | error e => rfl
  | ok u =>
      cases Scalar.isFinite ((pb.scaled (radii.map usableRadius)).cost
        (Array.zipWith (· / ·) p (radii.map usableRadius))) <;> rfl

variable (cycle pb ftol maxIter) in
/-- Where scaled coordinates lead back to the start, a search from a finite value is the course of
its cycles. -/
theorem descend_eq {p radii : Array α} (nonempty : p.size ≠ 0) (size : p.size = radii.size)
    (back : Array.zipWith (· * ·) (Array.zipWith (· / ·) p (radii.map usableRadius))
      (radii.map usableRadius) = p) (finite : Scalar.isFinite (pb.cost p) = true) :
    ∃ m, m = cyclesFrom cycle (pb.scaled (radii.map usableRadius)) ftol maxIter p.size 0
        (Array.zipWith (· / ·) p (radii.map usableRadius)) (pb.cost p) ∧
      (descend cycle pb radii ftol maxIter).run p =
        let p' := overwrite p (Array.zipWith (· * ·) m.point (radii.map usableRadius))
        .ok { m with point := p', iterations := min m.iterations maxIter } p' := by
  have setup : (checkSetup p.size radii.size : Except (MinimizeError α) Unit) = .ok () :=
    checkSetup_eq_ok_iff.mpr ⟨nonempty, size⟩
  have start : (pb.scaled (radii.map usableRadius)).cost
      (Array.zipWith (· / ·) p (radii.map usableRadius)) = pb.cost p := congrArg pb.cost back
  refine ⟨_, rfl, ?_⟩
  rw [descend_run, setup]
  dsimp only
  rw [start, if_pos finite]

/-- A course in scaled coordinates ends with the objective of its point. -/
theorem Cycles.unscaled {p scale : Array α} (size : p.size = scale.size)
    (back : Array.zipWith (· * ·) (Array.zipWith (· / ·) p scale) scale = p)
    (truthful : IsTruthfulCycle cycle (pb.scaled scale) p.size) {span used : ℕ}
    {calls : List (CycleCall α)} {m : Minimum α}
    (course : Cycles cycle (pb.scaled scale) ftol maxIter
      ⟨span, used, Array.zipWith (· / ·) p scale, pb.cost p⟩ calls m) :
    (Array.zipWith (· * ·) m.point scale).size = p.size ∧
      m.value = pb.cost (Array.zipWith (· * ·) m.point scale) := by
  obtain ⟨point, value⟩ :=
    course.valued truthful ⟨by simp [size], (congrArg pb.cost back).symm⟩
  exact ⟨by simp [point, size], value⟩

end Cycles

instance : IsTrans Extended (· < ·) := ⟨fun _ _ _ => Extended.lt_trans⟩

section Descent

variable (p radii : Array ℝ)

/-- A radius that is not positive counts as one, so the scales are positive. -/
theorem unscale_scaled_reals (size : p.size = radii.size) :
    Array.zipWith (· * ·) (Array.zipWith (· / ·) (p.map Extended.real)
      ((radii.map Extended.real).map usableRadius)) ((radii.map Extended.real).map usableRadius) =
      p.map Extended.real := by
  have positive (r : ℝ) : ∃ r' : ℝ, 0 < r' ∧ usableRadius (Extended.real r) = .real r' := by
    rw [usableRadius, Extended.zero_eq, Extended.one_eq]
    split
    · exact ⟨r, Extended.real_lt_real.mp ‹_›, rfl⟩
    · exact ⟨1, one_pos, rfl⟩
  refine unscale_scaled (by simp [size]) fun i hp hs => ?_
  have inside : i < radii.size := by simpa using hs
  obtain ⟨r', pos, scale⟩ := positive radii[i]
  rw [Array.getElem_map, Array.getElem_map, Array.getElem_map, scale, Extended.real_div _ pos.ne',
    Extended.real_mul, div_mul_cancel₀ _ pos.ne']

variable {cycle : CycleSearch Extended} {pb : Problem Extended} (ftol : Extended) (maxIter : ℕ)

variable (pb) in
theorem scaled_cost_start (size : p.size = radii.size) :
    (pb.scaled ((radii.map .real).map usableRadius)).cost
        (Array.zipWith (· / ·) (p.map .real) ((radii.map .real).map usableRadius)) =
      pb.cost (p.map .real) :=
  congrArg pb.cost (unscale_scaled_reals p radii size)

variable (cycle pb) in
/-- What a search from a point answers and leaves there, with the cycles that it makes. -/
structure Descent (m : Minimum Extended) (p' : Array Extended) : Prop where
  size : p'.size = p.size
  value_eq : m.value = pb.cost p'
  value_le : m.value ≤ pb.cost (p.map .real)
  iterations_le : m.iterations ≤ maxIter
  spent : m.converged = false → m.iterations = maxIter
  course : ∃ calls last,
    Cycles cycle (pb.scaled ((radii.map .real).map usableRadius)) ftol maxIter
      ⟨p.size, 0, Array.zipWith (· / ·) (p.map .real) ((radii.map .real).map usableRadius),
        pb.cost (p.map .real)⟩ calls last ∧
    m = { last with point := p' } ∧
    p' = Array.zipWith (· * ·) last.point ((radii.map .real).map usableRadius) ∧
    calls.length ≤ maxIter + 1 ∧
    ((∀ call ∈ calls, ¬call.Improves) → p' = p.map .real)

variable (cycle) in
theorem descend_fails
    (bad : p.size = 0 ∨ radii.size ≠ p.size ∨ Scalar.isFinite (pb.cost (p.map .real)) = false) :
    ∃ e, (descend cycle pb (radii.map .real) ftol maxIter).run (p.map .real) =
      .error e (p.map .real) := by
  rw [descend_run, Array.size_map, Array.size_map]
  cases setup : (checkSetup p.size radii.size : Except (MinimizeError Extended) Unit) with
  | error e => exact ⟨e, rfl⟩
  | ok u =>
      obtain ⟨nonempty, size⟩ := checkSetup_eq_ok_iff.mp setup
      obtain empty | mismatch | infinite := bad
      · exact absurd empty nonempty
      · exact absurd size.symm mismatch
      · refine ⟨_, if_neg ?_⟩
        rw [scaled_cost_start p radii pb size, infinite]
        exact Bool.false_ne_true

theorem descend_succeeds (nonempty : p.size ≠ 0) (size : p.size = radii.size)
    (finite : Scalar.isFinite (pb.cost (p.map .real)) = true)
    (honest : IsHonestCycle cycle (pb.scaled ((radii.map .real).map usableRadius)) p.size) :
    ∃ m p', (descend cycle pb (radii.map .real) ftol maxIter).run (p.map .real) = .ok m p' ∧
      Descent p radii cycle pb ftol maxIter m p' := by
  have back := unscale_scaled_reals p radii size
  obtain ⟨m, found, run⟩ := descend_eq cycle pb ftol maxIter (by simpa using nonempty)
    (by simpa using size) back finite
  obtain ⟨calls, course⟩ := cyclesFrom_cycles cycle
    (pb.scaled ((radii.map .real).map usableRadius)) ftol maxIter p.size 0
    (Array.zipWith (· / ·) (p.map .real) ((radii.map .real).map usableRadius))
    (pb.cost (p.map .real))
  rw [Array.size_map] at found
  rw [← found] at course
  obtain ⟨pointSize, value⟩ :=
    course.unscaled (by simp [size]) back (by simpa using honest.truthful)
  have start := scaled_cost_start p radii pb size
  obtain ⟨within, spent⟩ :=
    course.iterations honest ⟨by simp [size], start.symm⟩ (Nat.zero_le _)
  rw [overwrite_of_size pointSize, min_eq_left within] at run
  refine ⟨_, _, run, by simpa using pointSize, value, ?_, within, spent, calls, m, course, rfl,
    rfl, ?_, fun idle => ?_⟩
  · rcases course.descends with same | less
    · obtain ⟨x, real⟩ := Extended.isFinite_iff.mp finite
      rw [same, real]
      exact Extended.real_le_real.mpr le_rfl
    · exact Extended.le_of_lt less
  · have := course.length_le
    split at this <;> omega
  · rw [course.unmoved idle]
    exact back

/-- A search is safe with every honest cycle: it fails exactly when it has no parameters, the wrong
number of radii or no finite value to start with, and leaves the point then. Otherwise it makes
few cycles, and ends at a point with its value, no worse than its start, within its iterations. -/
theorem descend_safe
    (honest : IsHonestCycle cycle (pb.scaled ((radii.map .real).map usableRadius)) p.size) :
    ((∃ e p', (descend cycle pb (radii.map .real) ftol maxIter).run (p.map .real) = .error e p') ↔
      p.size = 0 ∨ radii.size ≠ p.size ∨ Scalar.isFinite (pb.cost (p.map .real)) = false) ∧
    (∀ e p', (descend cycle pb (radii.map .real) ftol maxIter).run (p.map .real) = .error e p' →
      p' = p.map .real) ∧
    ∀ m p', (descend cycle pb (radii.map .real) ftol maxIter).run (p.map .real) = .ok m p' →
      Descent p radii cycle pb ftol maxIter m p' := by
  by_cases bad : p.size = 0 ∨ radii.size ≠ p.size ∨ Scalar.isFinite (pb.cost (p.map .real)) = false
  · obtain ⟨e, run⟩ := descend_fails p radii cycle ftol maxIter bad
    rw [run]
    exact ⟨⟨fun _ => bad, fun _ => ⟨e, _, rfl⟩⟩, fun _ _ fails => by cases fails; rfl, nofun⟩
  · obtain ⟨nonempty, size, finite⟩ := by simpa only [not_or, ne_eq, not_not] using bad
    obtain ⟨m, p', run, good⟩ := descend_succeeds p radii ftol maxIter nonempty size.symm
      (Bool.eq_true_of_not_eq_false finite) honest
    rw [run]
    exact ⟨⟨nofun, fun h => absurd h bad⟩, nofun, fun _ _ ends => by cases ends; exact good⟩

end Descent

section Exact

theorem usableRadius_pos (r : ℝ) : 0 < usableRadius r := by
  rw [usableRadius, Scalar.real_zero, Scalar.real_one]
  split
  · assumption
  · exact one_pos

variable {cycle : CycleSearch ℝ} {pb : Problem ℝ} {p radii : Array ℝ}

theorem unscale_scaled_real (size : p.size = radii.size) :
    Array.zipWith (· * ·) (Array.zipWith (· / ·) p (radii.map usableRadius))
      (radii.map usableRadius) = p := by
  refine unscale_scaled (by simp [size]) fun i hp hs => ?_
  rw [Array.getElem_map]
  exact div_mul_cancel₀ _ (usableRadius_pos _).ne'

variable (cycle pb) in
/-- In exact arithmetic a search with parameters is the course of its cycles. -/
theorem conjugateGradient_eq (nonempty : p.size ≠ 0) (size : p.size = radii.size) (ftol : ℝ)
    (maxIter : ℕ) : ∃ m, m = cyclesFrom cycle (pb.scaled (radii.map usableRadius)) ftol maxIter
        p.size 0 (Array.zipWith (· / ·) p (radii.map usableRadius)) (pb.cost p) ∧
      conjugateGradient cycle pb p radii ftol maxIter = .ok { m with
        point := overwrite p (Array.zipWith (· * ·) m.point (radii.map usableRadius))
        iterations := min m.iterations maxIter } := by
  have finite : Scalar.isFinite (pb.cost p) = true := rfl
  obtain ⟨m, found, run⟩ := descend_eq cycle pb ftol maxIter nonempty size
    (unscale_scaled_real size) finite
  exact ⟨m, found, by rw [conjugateGradient, run]⟩

/-- Without iterations a search stays where it starts. -/
theorem conjugateGradient_still (nonempty : p.size ≠ 0) (size : p.size = radii.size) (ftol : ℝ) :
    conjugateGradient cycle pb p radii ftol 0 = .ok ⟨p, pb.cost p, 0, false⟩ := by
  obtain ⟨m, stays, run⟩ := conjugateGradient_eq cycle pb nonempty size ftol 0
  rw [cyclesFrom, dif_neg (lt_irrefl 0)] at stays
  rw [run, stays]
  dsimp only
  rw [unscale_scaled_real size, overwrite_of_size rfl, min_self]

/-- With truthful cycles a search with parameters ends at a point with its value, no worse than its
start. -/
theorem conjugateGradient_descends (nonempty : p.size ≠ 0) (size : p.size = radii.size)
    (truthful : IsTruthfulCycle cycle (pb.scaled (radii.map usableRadius)) p.size) (ftol : ℝ)
    (maxIter : ℕ) : ∃ m, conjugateGradient cycle pb p radii ftol maxIter = .ok m ∧
      m.point.size = p.size ∧ m.value = pb.cost m.point ∧ m.value ≤ pb.cost p := by
  obtain ⟨m, found, run⟩ := conjugateGradient_eq cycle pb nonempty size ftol maxIter
  obtain ⟨calls, course⟩ := cyclesFrom_cycles cycle (pb.scaled (radii.map usableRadius)) ftol
    maxIter p.size 0 (Array.zipWith (· / ·) p (radii.map usableRadius)) (pb.cost p)
  rw [← found] at course
  obtain ⟨ends, value⟩ :=
    course.unscaled (by simp [size]) (unscale_scaled_real size) truthful
  rw [overwrite_of_size ends] at run
  exact ⟨_, run, ends, value, course.descends.elim le_of_eq le_of_lt⟩

end Exact

/-- One step of the slope's length against it. It fails where there is no slope. -/
noncomputable def unitStep : CycleSearch Extended := fun pb q steps =>
  let slope := pb.slope q
  if slope.any fun x => decide (x < 0) || decide (0 < x) then
    let best := Array.zipWith (· - ·) q slope
    .ok ⟨best, pb.cost best, min 1 steps, true⟩
  else .error "Search direction must be a descent direction"

theorem unitStep_honest {pb : Problem Extended} {n : ℕ}
    (size : ∀ q : Array Extended, q.size = n → (pb.slope q).size = n) :
    IsHonestCycle unitStep pb n := by
  have answer {q steps run} (found : unitStep pb q steps = .ok run) :
      run = ⟨Array.zipWith (· - ·) q (pb.slope q),
        pb.cost (Array.zipWith (· - ·) q (pb.slope q)), min 1 steps, true⟩ := by
    unfold unitStep at found
    dsimp only at found
    split at found
    · exact (Except.ok.inj found).symm
    · cases found
  refine ⟨fun hq found => ?_, fun _ found => ?_, fun _ found _ => ?_⟩
  · simp [answer found, hq, size _ hq]
  · simp [answer found]
  · simp [answer found]

/-- Half the square of the distance to 1. -/
noncomputable def bowl : Problem Extended where
  cost q := (q.getD 0 0 - 1) * (q.getD 0 0 - 1) / 2
  slope q := q.map (· - 1)

theorem bowl_scaled_cost (x : ℝ) :
    (bowl.scaled #[.real 1]).cost #[.real x] = .real ((x - 1) * (x - 1) / 2) := by
  simp [Problem.scaled, bowl, Extended.one_eq, Extended.ofNat_eq, Extended.real_mul,
    Extended.real_sub, Extended.real_div]

theorem unitStep_bowl (x : ℝ) (steps : ℕ) :
    unitStep (bowl.scaled #[.real 1]) #[.real x] steps =
      if x = 1 then .error "Search direction must be a descent direction"
      else .ok ⟨#[.real 1], .real 0, min 1 steps, true⟩ := by
  have slope : (bowl.scaled #[.real 1]).slope #[.real x] = #[.real (x - 1)] := by
    simp [Problem.scaled, bowl, Extended.one_eq, Extended.real_mul, Extended.real_sub]
  unfold unitStep
  rw [slope]
  simp [Extended.zero_eq, Extended.real_sub, bowl_scaled_cost, sub_neg, sub_pos]

theorem descend_safe_bowl :
    ∃ m, (descend unitStep bowl #[.real 1] (.real 0) 5).run #[.real 0] = .ok m #[.real 1] ∧
      Descent #[0] #[1] unitStep bowl (.real 0) 5 m #[.real 1] := by
  have honest : IsHonestCycle unitStep
      (bowl.scaled ((#[(1 : ℝ)].map Extended.real).map usableRadius)) #[(0 : ℝ)].size :=
    unitStep_honest fun q hq => by
      simp only [Problem.scaled, bowl, Array.size_zipWith, Array.size_map, hq]
      rfl
  have run : (descend unitStep bowl #[.real 1] (.real 0) 5).run #[.real 0] =
      .ok ⟨#[.real 1], .real 0, 1, true⟩ #[.real 1] := by
    have scale : #[Extended.real 1].map usableRadius = #[.real 1] := by
      simp [usableRadius, Extended.zero_eq]
    have start : Array.zipWith (· / ·) #[Extended.real 0] #[.real 1] = #[.real 0] := by
      simp [Extended.real_div]
    have stays : cyclesFrom unitStep (bowl.scaled #[.real 1]) (.real 0) 5 1 1 #[.real 1] (.real 0) =
        ⟨#[.real 1], .real 0, 1, true⟩ := by
      rw [cyclesFrom]
      simp [unitStep_bowl]
    have moves : cyclesFrom unitStep (bowl.scaled #[.real 1]) (.real 0) 5 1 0 #[.real 0]
        (.real ((0 - 1) * (0 - 1) / 2)) = ⟨#[.real 1], .real 0, 1, true⟩ := by
      rw [cyclesFrom]
      simp [unitStep_bowl, stays]
    have finite : Scalar.isFinite (Extended.real ((0 - 1) * (0 - 1) / 2)) = true := rfl
    rw [descend_run]
    simp only [scale, start, bowl_scaled_cost, List.size_toArray, List.length_singleton, moves,
      finite]
    simp [checkSetup, overwrite, Extended.real_mul]
  exact ⟨_, run, (descend_safe #[0] #[1] (.real 0) 5 honest).2.2 _ _ (by simpa using run)⟩

end InkModel
