import InkModel.Device.Transfer
import InkModel.Proofs.Device.Bias

/-! # Slopes of transfer curves in exact arithmetic

A harmonic is one warp of the whole line, cut into sections of length one: the
alternating sign makes neighbouring sections meet with one slope, so a curve is
differentiable everywhere, in its argument and in each coefficient, and a
harmonic that is left out is a harmonic of strength zero.
-/

namespace InkModel

/-- The sign of a coefficient in section `n`. -/
noncomputable def sectionSign (n : ℤ) : ℝ := if n % 2 = 0 then 1 else -1

theorem sectionSign_pred (n : ℤ) : sectionSign (n - 1) = -sectionSign n := by
  unfold sectionSign
  rcases Int.emod_two_eq_zero_or_one n with even | odd
  · rw [if_neg (by omega), if_pos even]
  · rw [if_pos (by omega), if_neg (by omega), neg_neg]

theorem isOddSection_floor (y : ℝ) : isOddSection (⌊y⌋ : ℝ) = decide (⌊y⌋ % 2 ≠ 0) := by
  rw [isOddSection, Scalar.real_trunc_intCast]

/-- The strength of a harmonic of coefficient `c` in the section of `y`. -/
noncomputable def sectionStrength (c y : ℝ) : ℝ := sectionSign ⌊y⌋ * c

theorem sectionStrength_eq (c y : ℝ) :
    (if isOddSection (⌊y⌋ : ℝ) then -c else c) = sectionStrength c y := by
  rw [isOddSection_floor, sectionStrength, sectionSign]
  by_cases even : ⌊y⌋ % 2 = 0 <;> simp [even]

/-- The warp of a line whose sections have length one. -/
noncomputable def lineWarp (c y : ℝ) : ℝ :=
  rationalBias (sectionStrength c y) (Int.fract y) + ⌊y⌋

namespace LineWarp

theorem fract_mem (y : ℝ) : Int.fract y ∈ Set.Icc (0 : ℝ) 1 :=
  ⟨Int.fract_nonneg y, (Int.fract_lt_one y).le⟩

theorem of_floor {n : ℤ} {y : ℝ} (h : ⌊y⌋ = n) (c : ℝ) :
    lineWarp c y = rationalBias (sectionSign n * c) (y - n) + n := by
  rw [lineWarp, sectionStrength, Int.fract, h]

/-- A whole number begins one section and ends the one before. -/
theorem at_end (n : ℤ) (c : ℝ) :
    lineWarp c n = rationalBias (sectionSign (n - 1) * c) (n - (n - 1 : ℤ)) + (n - 1 : ℤ) := by
  rw [of_floor (Int.floor_intCast n)]
  simp

theorem at_strength_zero (y : ℝ) : lineWarp 0 y = y := by
  rw [lineWarp, sectionStrength, mul_zero, Bias.strength_zero, Int.fract_add_floor]

theorem hasDerivAt (c y : ℝ) : HasDerivAt (lineWarp c)
    (rationalBiasPartials (sectionStrength c y) (Int.fract y)).slope y := by
  -- The warp of one section, continued beyond its ends.
  have inside (n : ℤ) (h : y - n ∈ Set.Icc (0 : ℝ) 1) :
      HasDerivAt (fun y => rationalBias (sectionSign n * c) (y - n) + n)
        (rationalBiasPartials (sectionSign n * c) (y - n)).slope y := by
    have := (Bias.hasDerivAt (sectionSign n * c) h).comp y ((hasDerivAt_id y).sub_const (n : ℝ))
    simpa using this.add_const (n : ℝ)
  have start := inside ⌊y⌋ (fract_mem y)
  rcases (Int.floor_le y).lt_or_eq with between | whole
  · refine start.congr_of_eventuallyEq ?_
    filter_upwards [Ioo_mem_nhds between (Int.lt_floor_add_one y)] with y' hy'
    exact of_floor (Int.floor_eq_iff.mpr ⟨hy'.1.le, hy'.2⟩) c
  · obtain ⟨n, rfl⟩ : ∃ n : ℤ, y = n := ⟨_, whole.symm⟩
    rw [Int.floor_intCast] at start
    have ended := inside (n - 1) (by simp)
    have slopes : (rationalBiasPartials (sectionSign (n - 1) * c) (n - (n - 1 : ℤ))).slope =
        (rationalBiasPartials (sectionSign n * c) (n - n : ℝ)).slope := by
      have := Bias.slope_neg_at_one (sectionSign n * c)
      simpa [sectionSign_pred] using this
    rw [sectionStrength, Int.fract, Int.floor_intCast]
    refine Bias.hasDerivAt_join (ended.congr_deriv slopes) start ?_ ?_
    · have before : Set.Ioc ((n : ℝ) - 1) n ∈ nhdsWithin (n : ℝ) (Set.Iic n) :=
        Ioc_mem_nhdsLE (by linarith)
      filter_upwards [before] with y' hy'
      rcases hy'.2.lt_or_eq with lt | rfl
      · have floor : ⌊y'⌋ = n - 1 := by
          rw [Int.floor_eq_iff]
          push_cast
          exact ⟨hy'.1.le, by linarith⟩
        exact of_floor floor c
      · exact at_end n c
    · have after : Set.Ico (n : ℝ) (n + 1) ∈ nhdsWithin (n : ℝ) (Set.Ici n) :=
        Ico_mem_nhdsGE (by linarith)
      filter_upwards [after] with y' hy'
      exact of_floor (Int.floor_eq_iff.mpr ⟨hy'.1, hy'.2⟩) c

theorem hasDerivAt_strength (c y : ℝ) : HasDerivAt (fun c => lineWarp c y)
    (sectionSign ⌊y⌋ *
      (rationalBiasPartials (sectionStrength c y) (Int.fract y)).strengthSlope) c := by
  have scaled : HasDerivAt (fun c => sectionSign ⌊y⌋ * c) (sectionSign ⌊y⌋) c := by
    simpa using (hasDerivAt_id c).const_mul (sectionSign ⌊y⌋)
  have inner := Bias.hasDerivAt_strength (sectionStrength c y) (fract_mem y)
  refine ((inner.comp c scaled).add_const (⌊y⌋ : ℝ)).congr_deriv ?_
  ring

/-- No section is left: what is at most a whole number stays so. -/
theorem le_of_le {y : ℝ} {n : ℤ} (h : y ≤ n) (c : ℝ) : lineWarp c y ≤ n := by
  rcases h.lt_or_eq with lt | rfl
  · have unit := (Bias.mem_unit (sectionStrength c y) (fract_mem y)).2
    have below : (⌊y⌋ : ℝ) + 1 ≤ n := by exact_mod_cast Int.floor_lt.mpr lt
    unfold lineWarp
    linarith
  · rw [of_floor (Int.floor_intCast n)]
    simp

theorem nonneg_of_nonneg {y : ℝ} (h : 0 ≤ y) (c : ℝ) : 0 ≤ lineWarp c y := by
  have unit := (Bias.mem_unit (sectionStrength c y) (fract_mem y)).1
  have floor : (0 : ℝ) ≤ ⌊y⌋ := by exact_mod_cast Int.floor_nonneg.mpr h
  exact add_nonneg unit floor

end LineWarp

/-- Harmonic `o` with coefficient `c`. -/
noncomputable def harmonic (o : ℕ) (c x : ℝ) : ℝ :=
  lineWarp c (x * (o + 1 : ℕ)) / (o + 1 : ℕ)

/-- The warp of harmonic `o` with coefficient `c` in the section of `x`, with
its slopes. -/
noncomputable def harmonicPartials (o : ℕ) (c x : ℝ) : BiasPartials ℝ :=
  rationalBiasPartials (sectionStrength c (x * (o + 1 : ℕ))) (Int.fract (x * (o + 1 : ℕ)))

/-- Slope of harmonic `o` in its coefficient `c`. -/
noncomputable def harmonicCoefSlope (o : ℕ) (c x : ℝ) : ℝ :=
  sectionSign ⌊x * (o + 1 : ℕ)⌋ * (harmonicPartials o c x).strengthSlope / (o + 1 : ℕ)

namespace Harmonic

theorem at_zero_coef (o : ℕ) (x : ℝ) : harmonic o 0 x = x := by
  rw [harmonic, LineWarp.at_strength_zero, mul_div_cancel_right₀]
  exact Nat.cast_ne_zero.mpr o.succ_ne_zero

theorem slope_at_zero_coef (o : ℕ) (x : ℝ) : (harmonicPartials o 0 x).slope = 1 := by
  rw [harmonicPartials, sectionStrength, mul_zero, Bias.slope_of_nonneg le_rfl]
  norm_num

theorem hasDerivAt (o : ℕ) (c x : ℝ) :
    HasDerivAt (harmonic o c) (harmonicPartials o c x).slope x := by
  have count : ((o + 1 : ℕ) : ℝ) ≠ 0 := Nat.cast_ne_zero.mpr o.succ_ne_zero
  have scaled : HasDerivAt (fun x : ℝ => x * (o + 1 : ℕ)) (o + 1 : ℕ) x := by
    simpa using (hasDerivAt_id x).mul_const ((o + 1 : ℕ) : ℝ)
  refine (((LineWarp.hasDerivAt c _).comp x scaled).div_const _).congr_deriv ?_
  rw [mul_div_cancel_right₀ _ count, harmonicPartials]

theorem hasDerivAt_coef (o : ℕ) (c x : ℝ) :
    HasDerivAt (fun c => harmonic o c x) (harmonicCoefSlope o c x) c :=
  (LineWarp.hasDerivAt_strength c _).div_const _

theorem mem_unit (o : ℕ) (c : ℝ) {x : ℝ} (h : x ∈ Set.Icc (0 : ℝ) 1) :
    harmonic o c x ∈ Set.Icc (0 : ℝ) 1 := by
  have count : (0 : ℝ) < (o + 1 : ℕ) := Nat.cast_pos.mpr o.succ_pos
  have scaled : x * (o + 1 : ℕ) ≤ ((o + 1 : ℕ) : ℤ) := by
    rw [Int.cast_natCast]
    nlinarith [h.2]
  have upper := LineWarp.le_of_le scaled c
  rw [Int.cast_natCast] at upper
  have lower := LineWarp.nonneg_of_nonneg (mul_nonneg h.1 count.le) c
  exact ⟨div_nonneg lower count.le, (div_le_one count).mpr upper⟩

end Harmonic

@[simp] theorem transferFrom_nil (o : ℕ) (x : ℝ) : transferFrom o [] x = x := rfl

@[simp] theorem transferFrom_cons (o : ℕ) (c : ℝ) (cs : List ℝ) (x : ℝ) :
    transferFrom o (c :: cs) x = transferFrom (o + 1) cs (harmonic o c x) := by
  rw [transferFrom, Scalar.real_eqv, Scalar.real_zero]
  by_cases inactive : c = 0
  · rw [if_pos (decide_eq_true inactive), inactive, Harmonic.at_zero_coef]
  · rw [if_neg (by simpa using inactive)]
    change transferFrom (o + 1) cs ((rationalBias
      (if isOddSection (⌊x * (o + 1 : ℕ)⌋ : ℝ) then -c else c) _ + _) / _) = _
    rw [sectionStrength_eq]
    rfl

theorem transferFrom_zero (o : ℕ) {cs : List ℝ} (zero : ∀ c ∈ cs, c = 0) (x : ℝ) :
    transferFrom o cs x = x := by
  induction cs generalizing o with
  | nil => rfl
  | cons c cs ih =>
      rw [transferFrom_cons, zero c List.mem_cons_self, Harmonic.at_zero_coef]
      exact ih (o + 1) fun c mem => zero c (List.mem_cons_of_mem _ mem)

theorem transferFrom_mem_unit (o : ℕ) (cs : List ℝ) {x : ℝ} (h : x ∈ Set.Icc (0 : ℝ) 1) :
    transferFrom o cs x ∈ Set.Icc (0 : ℝ) 1 := by
  induction cs generalizing o x with
  | nil => exact h
  | cons c cs ih =>
      rw [transferFrom_cons]
      exact ih (o + 1) (Harmonic.mem_unit o c h)

/-- Slope of the harmonics from `o` on in their argument. -/
noncomputable def curveSlope (o : ℕ) : List ℝ → ℝ → ℝ
  | [], _ => 1
  | c :: cs, x => (harmonicPartials o c x).slope * curveSlope (o + 1) cs (harmonic o c x)

theorem curveSlope_pos (o : ℕ) (cs : List ℝ) (x : ℝ) : 0 < curveSlope o cs x := by
  induction cs generalizing o x with
  | nil => exact one_pos
  | cons c cs ih =>
      rw [curveSlope]
      exact mul_pos (Bias.slope_pos _ (LineWarp.fract_mem _)) (ih (o + 1) (harmonic o c x))

/-- Slope of the harmonics from `o` on in the coefficient of index `i`. -/
noncomputable def curveCoefSlope (o : ℕ) : List ℝ → ℕ → ℝ → ℝ
  | [], _, _ => 0
  | c :: cs, 0, x => harmonicCoefSlope o c x * curveSlope (o + 1) cs (harmonic o c x)
  | c :: cs, i + 1, x => curveCoefSlope (o + 1) cs i (harmonic o c x)

theorem hasDerivAt_transferFrom (o : ℕ) (cs : List ℝ) (x : ℝ) :
    HasDerivAt (transferFrom o cs) (curveSlope o cs x) x := by
  induction cs generalizing o x with
  | nil => exact hasDerivAt_id x
  | cons c cs ih =>
      rw [funext (transferFrom_cons o c cs), curveSlope, mul_comm]
      exact (ih (o + 1) (harmonic o c x)).comp x (Harmonic.hasDerivAt o c x)

theorem hasDerivAt_transferFrom_coef (o : ℕ) (cs : List ℝ) {i : ℕ} (h : i < cs.length) (x : ℝ) :
    HasDerivAt (fun c => transferFrom o (cs.set i c) x) (curveCoefSlope o cs i x) cs[i] := by
  induction cs generalizing o i x with
  | nil => exact absurd h (Nat.not_lt_zero i)
  | cons c cs ih =>
      cases i with
      | zero =>
          simp only [List.set_cons_zero, transferFrom_cons, List.getElem_cons_zero]
          rw [curveCoefSlope, mul_comm]
          exact (hasDerivAt_transferFrom (o + 1) cs (harmonic o c x)).comp c
            (Harmonic.hasDerivAt_coef o c x)
      | succ i =>
          simp only [List.set_cons_succ, transferFrom_cons, List.getElem_cons_succ]
          exact ih (o + 1) (Nat.lt_of_succ_lt_succ h) (harmonic o c x)

/-! The computed slopes. -/

namespace TransferPartials

theorem scaleBelow_getElem? (n : ℕ) (factor : ℝ) (table : Array ℝ) (i : ℕ) :
    (scaleBelow n factor table)[i]? =
      table[i]?.map fun x => if i < n then x * factor else x := by
  rw [scaleBelow, Array.getElem?_mapIdx]

theorem scaleBelow_one (n : ℕ) (table : Array ℝ) : scaleBelow n 1 table = table := by
  apply Array.ext_getElem?
  intro i
  rw [scaleBelow_getElem?]
  simp

theorem addHarmonic_eq (t : TransferPartials ℝ) (o : ℕ) (c : ℝ) :
    t.addHarmonic o c =
      { value := harmonic o c t.value
        slope := t.slope * (harmonicPartials o c t.value).slope
        coefSlopes := (scaleBelow o (harmonicPartials o c t.value).slope
          t.coefSlopes).setIfInBounds o (harmonicCoefSlope o c t.value) } := by
  have strength : (if isOddSection (Scalar.floor (t.value * Scalar.ofNat (o + 1))) then -c else c) =
      sectionStrength c (t.value * (o + 1 : ℕ)) := sectionStrength_eq c _
  have partials : rationalBiasPartials (sectionStrength c (t.value * (o + 1 : ℕ)))
      (t.value * Scalar.ofNat (o + 1) - Scalar.floor (t.value * Scalar.ofNat (o + 1))) =
      harmonicPartials o c t.value := rfl
  have own : (if isOddSection (Scalar.floor (t.value * Scalar.ofNat (o + 1)))
      then -(harmonicPartials o c t.value).strengthSlope
      else (harmonicPartials o c t.value).strengthSlope) / Scalar.ofNat (o + 1) =
      harmonicCoefSlope o c t.value := congrArg (· / _) (sectionStrength_eq _ _)
  unfold addHarmonic
  dsimp only
  rw [strength, partials, own, Scalar.real_eqv, Scalar.real_zero]
  by_cases inactive : c = 0
  · subst inactive
    simp only [decide_true, ↓reduceIte, Harmonic.at_zero_coef, Harmonic.slope_at_zero_coef,
      mul_one, scaleBelow_one]
  · rw [if_neg (by simpa using inactive)]
    congr 1
    rw [harmonicPartials, Bias.value_eq]
    rfl

theorem from_value (o : ℕ) (cs : List ℝ) (t : TransferPartials ℝ) :
    (transferPartialsFrom o cs t).value = transferFrom o cs t.value := by
  induction cs generalizing o t with
  | nil => rfl
  | cons c cs ih => rw [transferPartialsFrom, ih, transferFrom_cons, addHarmonic_eq]

theorem from_slope (o : ℕ) (cs : List ℝ) (t : TransferPartials ℝ) :
    (transferPartialsFrom o cs t).slope = t.slope * curveSlope o cs t.value := by
  induction cs generalizing o t with
  | nil => exact (mul_one t.slope).symm
  | cons c cs ih => rw [transferPartialsFrom, ih, curveSlope, addHarmonic_eq, mul_assoc]

theorem from_size (o : ℕ) (cs : List ℝ) (t : TransferPartials ℝ) :
    (transferPartialsFrom o cs t).coefSlopes.size = t.coefSlopes.size := by
  induction cs generalizing o t with
  | nil => rfl
  | cons c cs ih => simp [transferPartialsFrom, ih, addHarmonic_eq, scaleBelow]

/-- The slopes of earlier coefficients pass through all further harmonics. -/
theorem from_earlier {o e : ℕ} (earlier : e < o) (cs : List ℝ) (t : TransferPartials ℝ) :
    (transferPartialsFrom o cs t).coefSlopes[e]? =
      t.coefSlopes[e]?.map (· * curveSlope o cs t.value) := by
  induction cs generalizing o t with
  | nil => simp [transferPartialsFrom, curveSlope]
  | cons c cs ih =>
      rw [transferPartialsFrom, ih (Nat.lt_succ_of_lt earlier), curveSlope, addHarmonic_eq]
      dsimp only
      rw [Array.getElem?_setIfInBounds_ne (Nat.ne_of_gt earlier), scaleBelow_getElem?,
        Option.map_map]
      simp only [earlier, ↓reduceIte, Function.comp_def, mul_assoc]

/-- The slope of a coefficient is written before it is read, so it does not
depend on what its place held. -/
theorem from_own (o : ℕ) (cs : List ℝ) {i : ℕ} (h : i < cs.length) (t : TransferPartials ℝ)
    (room : o + i < t.coefSlopes.size) :
    (transferPartialsFrom o cs t).coefSlopes[o + i]? =
      some (curveCoefSlope o cs i t.value) := by
  induction cs generalizing o i t with
  | nil => exact absurd h (Nat.not_lt_zero i)
  | cons c cs ih =>
      have room' : o + i < (t.addHarmonic o c).coefSlopes.size := by
        simpa [addHarmonic_eq, scaleBelow] using room
      have value : (t.addHarmonic o c).value = harmonic o c t.value := by rw [addHarmonic_eq]
      rw [transferPartialsFrom]
      cases i with
      | zero =>
          change (transferPartialsFrom (o + 1) cs (t.addHarmonic o c)).coefSlopes[o]? = _
          have written : (t.addHarmonic o c).coefSlopes[o]? =
              some (harmonicCoefSlope o c t.value) := by
            rw [addHarmonic_eq] at room' ⊢
            exact Array.getElem?_setIfInBounds_self_of_lt (by simpa using room')
          rw [from_earlier (Nat.lt_succ_self o), written, value]
          rfl
      | succ i =>
          have shifted : o + (i + 1) = o + 1 + i := by omega
          rw [shifted] at room' ⊢
          rw [ih (o + 1) (Nat.lt_of_succ_lt_succ h) _ room', value]
          rfl

end TransferPartials

theorem transfer_mem_unit (cs : List ℝ) {x : ℝ} (h : x ∈ Set.Icc (0 : ℝ) 1) :
    transfer cs x ∈ Set.Icc (0 : ℝ) 1 :=
  transferFrom_mem_unit 0 cs h

section Over

variable {table : Array ℝ} {cs : List ℝ} (x : ℝ)

theorem transferPartialsOver_slope :
    (transferPartialsOver table cs x).slope = curveSlope 0 cs x := by
  rw [transferPartialsOver, TransferPartials.from_slope, Scalar.real_one, one_mul]

theorem transferPartialsOver_coefSlopes (size : table.size = cs.length) :
    (transferPartialsOver table cs x).coefSlopes =
      Array.ofFn fun i : Fin cs.length => curveCoefSlope 0 cs i x := by
  have sizes : (transferPartialsOver table cs x).coefSlopes.size = cs.length :=
    (TransferPartials.from_size 0 cs _).trans size
  apply Array.ext_getElem?
  intro i
  by_cases h : i < cs.length
  · have own := TransferPartials.from_own 0 cs h ⟨x, Scalar.ofNat 1, table⟩
      (by simpa [size] using h)
    rw [Nat.zero_add] at own
    rw [Array.getElem?_ofFn, dif_pos h]
    exact own
  · rw [Array.getElem?_eq_none (by omega), Array.getElem?_eq_none (by simpa using h)]

end Over

end InkModel
