import InkModel.Proofs.Double
import InkModel.Search.Brent

/-! # Line minimizations

A line minimization ends at a point whose value it has sampled: the best of its bracket, or the
answer of the interval search when that is no worse. For doubles the outcome hangs on the sample
one whole direction away from the start. When that one is defined, the search never ends above its
start and never at an undefined value, however many other samples are undefined. When it is not,
no comparison leads away from it, and the search ends right there.
-/

namespace InkModel

section Line

variable {α : Type} [Scalar α]

theorem lineMinimize_size {search : IntervalSearch α} {f : Array α → α} {p dir : Array α}
    {m : LineMinimum α} (h : lineMinimize search f p dir = .ok m) : m.point.size = p.size := by
  simp only [lineMinimize, bind, Except.bind] at h
  split at h
  · cases h
  · cases h
    simp

theorem lineMinimize_displacement_size {search : IntervalSearch α} {f : Array α → α}
    {p dir : Array α} {m : LineMinimum α} (h : lineMinimize search f p dir = .ok m) :
    m.displacement.size = dir.size := by
  simp only [lineMinimize, bind, Except.bind] at h
  split at h
  · cases h
  · cases h
    simp

/-- The best point of an expanded bracket is its middle, or a sample below that. -/
theorem expandBracket_best (trans : ∀ {x y z : α}, x < y → y < z → x < z) {g : α → α} (fuel : ℕ)
    {a b fb c fc : α} (hb : fb = g b) (hc : fc = g c) :
    (expandBracket g fuel a b fb c fc).best.value = g (expandBracket g fuel a b fb c fc).best.step ∧
      ((expandBracket g fuel a b fb c fc).best = ⟨b, fb⟩ ∨
        (expandBracket g fuel a b fb c fc).best.value < fb) := by
  induction fuel generalizing a b fb c fc with
  | zero => exact ⟨hb, .inl rfl⟩
  | succ fuel ih =>
      rw [expandBracket]
      split
      · rename_i lower
        obtain ⟨value, middle | below⟩ := ih (a := b) hc rfl
        · exact ⟨value, .inr (by rwa [middle])⟩
        · exact ⟨value, .inr (trans below lower)⟩
      · exact ⟨hb, .inl rfl⟩

/-- The middle of the bracket from which the expansion goes on: the lower one of the steps 0
and 1, and the step 1 when neither is. -/
def bracketMiddle (g : α → α) : LinePoint α := if g 0 < g 1 then ⟨0, g 0⟩ else ⟨1, g 1⟩

theorem bracket_best (trans : ∀ {x y z : α}, x < y → y < z → x < z) (g : α → α) :
    (bracket g).best.value = g (bracket g).best.step ∧
      ((bracket g).best = bracketMiddle g ∨
        (bracket g).best.value < (bracketMiddle g).value) := by
  unfold bracket bracketMiddle
  dsimp only
  split
  · exact expandBracket_best trans bracketExpansions rfl rfl
  · exact expandBracket_best trans bracketExpansions rfl rfl

/-- The objective along the line through `p` in the direction `dir`. -/
def lineObjective (f : Array α → α) (p dir : Array α) (t : α) : α := f (alongLine p dir t)

/-- The point taken is the best of the bracket, or one of the interval search that is as good. -/
theorem lineMinimize_takes (comm : ∀ x y : α, x * y = y * x) {search : IntervalSearch α}
    {f : Array α → α} {p dir : Array α} (size : dir.size = p.size)
    {found : Option (LinePoint α)}
    (answer : search (lineObjective f p dir) (bracket (lineObjective f p dir)).lo
      (bracket (lineObjective f p dir)).hi = .ok found) :
    ∃ m, lineMinimize search f p dir = .ok m ∧ m.point = alongLine p dir m.step ∧
      m.displacement.size = p.size ∧
      ((bracket (lineObjective f p dir)).best = ⟨m.step, m.value⟩ ∨
        found = some ⟨m.step, m.value⟩ ∧
          m.value ≤ (bracket (lineObjective f p dir)).best.value) := by
  unfold lineObjective at answer ⊢
  simp only [lineMinimize, bind, Except.bind, answer, Except.mapError, pure, Except.pure,
    Except.ok.injEq, exists_eq_left', Array.size_map, size, true_and]
  constructor
  · refine Array.ext (by simp [alongLine]) fun i hi _ => ?_
    have inside : i < dir.size := by simpa [size] using hi
    simp [alongLine, inside, comm]
  · cases found with
    | none => exact .inl rfl
    | some x =>
        dsimp only
        split
        · exact .inr ⟨rfl, ‹_›⟩
        · exact .inl rfl

end Line

namespace Brent

/-! The interval search by parabolas and golden sections answers with a value of its function. -/

variable {f : Float → Float}

theorem State.chooseStep_best (s : State) : s.chooseStep.x = s.x ∧ s.chooseStep.fx = s.fx := by
  unfold State.chooseStep
  extract_lets
  split
  · split
    · exact ⟨rfl, rfl⟩
    · exact ⟨rfl, rfl⟩
  · exact ⟨rfl, rfl⟩

theorem State.insert_sampled {s : State} (sampled : s.fx = f s.x) (u : Float) :
    (s.insert u (f u)).fx = f (s.insert u (f u)).x := by
  unfold State.insert
  split
  · rfl
  · -- the new point is an end of the interval from now on, and the best one stays
    extract_lets moved
    have best : moved.fx = f moved.x := by
      unfold moved
      split
      · exact sampled
      · exact sampled
    split
    · exact best
    · split
      · exact best
      · exact best

theorem keepBetter_reports {best : Option (LinePoint Float)} {s : State}
    (kept : ∀ x ∈ best, x.value = f x.step) (sampled : s.fx = f s.x) :
    ∀ x ∈ keepBetter best s, x.value = f x.step := by
  unfold keepBetter
  grind

theorem searchFrom_reports (fuel : ℕ) {best : Option (LinePoint Float)} {s : State}
    (kept : ∀ x ∈ best, x.value = f x.step) (sampled : s.fx = f s.x) :
    ∀ x ∈ searchFrom f fuel best s, x.value = f x.step := by
  induction fuel generalizing best s with
  | zero => exact kept
  | succ fuel ih =>
      rw [searchFrom]
      split
      · exact kept
      · have chosen : s.chooseStep.fx = f s.chooseStep.x := by
          rw [s.chooseStep_best.1, s.chooseStep_best.2, sampled]
        have inserted := State.insert_sampled chosen s.chooseStep.target
        exact ih (keepBetter_reports kept inserted) inserted

theorem search_reports (f : Float → Float) (lo hi : Float) :
    ∃ found, search f lo hi = .ok found ∧ ∀ x ∈ found, x.value = f x.step :=
  ⟨_, rfl, searchFrom_reports _ (keepBetter_reports nofun rfl) rfl⟩

end Brent

section Doubles

/-- A step of length zero stays at the point, unless it has a negative zero among its coordinates
or the direction leaves the finite numbers. -/
theorem alongLine_zero_double {p dir : Array Float} (size : dir.size = p.size)
    (unsigned : ∀ x ∈ p, x ≠ -0) (finite : ∀ d ∈ dir, d.isFinite = true) :
    alongLine p dir 0 = p := by
  refine Array.ext (by simp [alongLine]) fun i _ hi => ?_
  have inside : i < dir.size := size ▸ hi
  have stays : p[i] + 0 * dir[i] = p[i] :=
    Double.add_zero_mul (unsigned _ (Array.getElem_mem hi)) (finite _ (Array.getElem_mem inside))
  simpa [alongLine, inside] using stays

variable {g : Float → Float}

/-- With a defined sample at the step 1 the best of the bracket is no higher than the step 0. -/
theorem bracket_best_le (start : (g 0).isNaN = false) (first : (g 1).isNaN = false) :
    (bracket g).best.value ≤ g 0 := by
  have middle : (bracketMiddle g).value ≤ g 0 := by
    unfold bracketMiddle
    split
    · exact Double.le_refl start
    · exact Double.le_of_not_lt start first ‹_›
  rcases (bracket_best Double.lt_trans g).2 with same | below
  · rwa [same]
  · exact Double.le_trans (Double.le_of_lt below) middle

/-- An undefined sample at the step 1 is neither above nor below another one, and stays the best. -/
theorem bracket_best_undefined (first : (g 1).isNaN = true) : (bracket g).best = ⟨1, g 1⟩ := by
  have middle : bracketMiddle g = ⟨1, g 1⟩ := by
    refine if_neg fun less => ?_
    rw [(Double.lt_iff.mp less).2.1] at first
    cases first
  rcases (bracket_best Double.lt_trans g).2 with same | below
  · exact same.trans middle
  · rw [middle] at below
    rw [(Double.lt_iff.mp below).2.1] at first
    cases first

variable {search : IntervalSearch Float} {f : Array Float → Float} {p dir : Array Float}
  {found : Option (LinePoint Float)} (size : dir.size = p.size)
  (answer : search (lineObjective f p dir) (bracket (lineObjective f p dir)).lo
    (bracket (lineObjective f p dir)).hi = .ok found)

include size answer

theorem lineMinimize_below (reports : ∀ x ∈ found, x.value = lineObjective f p dir x.step)
    (start : lineObjective f p dir 0 = f p) (defined : (f p).isNaN = false)
    (first : (lineObjective f p dir 1).isNaN = false) :
    ∃ m, lineMinimize search f p dir = .ok m ∧ m.value = f m.point ∧ m.value ≤ f p := by
  obtain ⟨m, ran, point, -, taken⟩ := lineMinimize_takes Double.mul_comm size answer
  have sampled := (bracket_best Double.lt_trans (lineObjective f p dir)).1
  have low := bracket_best_le (start.symm ▸ defined) first
  rw [start] at low
  refine ⟨m, ran, ?_⟩
  rw [point]
  rcases taken with best | ⟨same, better⟩
  · rw [best] at sampled low
    exact ⟨sampled, low⟩
  · exact ⟨reports _ same, Double.le_trans better low⟩

theorem lineMinimize_stranded (first : (lineObjective f p dir 1).isNaN = true) :
    ∃ m, lineMinimize search f p dir = .ok m ∧ m.value = f m.point ∧
      m.point = alongLine p dir 1 := by
  obtain ⟨m, ran, point, -, taken⟩ := lineMinimize_takes Double.mul_comm size answer
  have best := bracket_best_undefined first
  refine ⟨m, ran, ?_⟩
  rw [point]
  rcases taken with same | ⟨-, better⟩
  · obtain ⟨step, value⟩ := LinePoint.mk.inj (best.symm.trans same)
    rw [← step]
    exact ⟨value.symm, rfl⟩
  · rw [best] at better
    rw [(Double.le_iff.mp better).2.1] at first
    cases first

/-- With a defined objective one whole direction away from its start, a line minimization ends
at a defined value that is not above the one at the start; without, it ends right there. By `start`
the step of length zero leads to the objective of the start itself, as it does for every finite
direction from a point without a negative zero (`alongLine_zero_double`). -/
theorem lineMinimize_downhill (reports : ∀ x ∈ found, x.value = lineObjective f p dir x.step)
    (start : lineObjective f p dir 0 = f p) (defined : (f p).isNaN = false) :
    ∃ m, lineMinimize search f p dir = .ok m ∧ m.value = f m.point ∧
      ((lineObjective f p dir 1).isNaN = false → m.value.isNaN = false ∧ m.value ≤ f p) ∧
      ((lineObjective f p dir 1).isNaN = true → m.point = alongLine p dir 1) := by
  cases first : (lineObjective f p dir 1).isNaN with
  | false =>
      obtain ⟨m, ran, value, le⟩ := lineMinimize_below size answer reports start defined first
      exact ⟨m, ran, value, fun _ => ⟨(Double.le_iff.mp le).1, le⟩, nofun⟩
  | true =>
      obtain ⟨m, ran, value, stays⟩ := lineMinimize_stranded size answer first
      exact ⟨m, ran, value, nofun, fun _ => stays⟩

end Doubles

/-- The square of the first coordinate, undefined outside `[-1/2, 1/2]`. -/
def fence (p : Array Float) : Float :=
  let x := p.getD 0 0
  if 0.5 < x.abs then 0 / 0 else x * x

/-- The steps 0 and 1 are inside the fence, at the same height, and the next sample of the bracket
is beyond it. -/
theorem lineMinimize_downhill_fence :
    ∃ m, lineMinimize Brent.search fence #[0.25] #[-0.5] = .ok m ∧ m.value = fence m.point ∧
      m.value.isNaN = false ∧ m.value ≤ fence #[0.25] := by
  have size : (#[-0.5] : Array Float).size = (#[0.25] : Array Float).size := rfl
  have start : lineObjective fence #[0.25] #[-0.5] 0 = fence #[0.25] :=
    congrArg fence (alongLine_zero_double size (by decide) (by decide))
  have defined : (fence #[0.25]).isNaN = false := by decide
  have first : (lineObjective fence #[0.25] #[-0.5] 1).isNaN = false := by decide +kernel
  obtain ⟨found, answer, reports⟩ := Brent.search_reports (lineObjective fence #[0.25] #[-0.5]) _ _
  obtain ⟨m, ran, value, downhill, -⟩ := lineMinimize_downhill size answer reports start defined
  exact ⟨m, ran, value, downhill first⟩

/-- From the bottom inside the fence a search that first samples beyond it leaves the bottom. -/
theorem fence_left : fence #[0] = 0 ∧ ∃ m, lineMinimize Brent.search fence #[0] #[1] = .ok m ∧
    m.value = fence m.point ∧ m.point = #[1] ∧ m.value.isNaN = true := by
  have size : (#[1] : Array Float).size = (#[0] : Array Float).size := rfl
  obtain ⟨found, answer, -⟩ := Brent.search_reports (lineObjective fence #[0] #[1]) _ _
  have first : (lineObjective fence #[0] #[1] 1).isNaN = true := by decide +kernel
  have one : alongLine (#[0] : Array Float) #[1] 1 = #[1] := by decide +kernel
  obtain ⟨m, ran, value, stays⟩ := lineMinimize_stranded size answer first
  refine ⟨by decide +kernel, m, ran, value, stays.trans one, ?_⟩
  rw [value, stays]
  exact first

end InkModel
