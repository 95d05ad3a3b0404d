import InkModel.Proofs.Fit.Start

/-! # The nearest sample, with a sample and without it

A primary starts at the nearest sample to its corner, whatever that weighs, and an overprint that no
sample comes near starts at an estimate from the single inks. So the start of a fit does not see a
sample that is passed over at every corner, for another that is nearer or comes first, or for the
estimate.
-/

namespace InkModel

theorem forall_mem_beside {β : Type} {P : β → Prop} {x : β} {before after : List β} :
    (∀ y ∈ before ++ x :: after, P y) ↔ P x ∧ ∀ y ∈ before ++ after, P y := by
  simp only [List.forall_mem_append, List.forall_mem_cons]
  tauto

/-! The nearest point, with a point and without it. -/

section Nearest

variable {comb : ℕ} {p q : FitPoint ℝ} {points before after : List (FitPoint ℝ)}

variable (comb) in
theorem nearer_le (best : Option (Nearest ℝ)) (p : FitPoint ℝ) :
    ∃ b, nearer comb best p = some b ∧ b.distance ≤ cornerDistance comb p.dev := by
  cases best with
  | none => exact ⟨_, rfl, le_rfl⟩
  | some b =>
      by_cases less : cornerDistance comb p.dev < b.distance
      · exact ⟨_, if_pos less, le_rfl⟩
      · exact ⟨b, if_neg less, not_lt.mp less⟩

variable (comb) in
theorem foldl_nearer_le (points : List (FitPoint ℝ)) (b : Nearest ℝ) :
    ∃ b', points.foldl (nearer comb) (some b) = some b' ∧ b'.distance ≤ b.distance := by
  induction points generalizing b with
  | nil => exact ⟨b, rfl, le_rfl⟩
  | cons p points ih =>
      rw [List.foldl_cons]
      by_cases less : cornerDistance comb p.dev < b.distance
      · have step : nearer comb (some b) p = some ⟨p, cornerDistance comb p.dev⟩ := if_pos less
        obtain ⟨b', found, near⟩ := ih ⟨p, cornerDistance comb p.dev⟩
        rw [step]
        exact ⟨b', found, near.trans less.le⟩
      · have step : nearer comb (some b) p = some b := if_neg less
        rw [step]
        exact ih b

variable (comb) in
theorem foldl_nearer_le_of_mem (mem : q ∈ points) (best : Option (Nearest ℝ)) :
    ∃ b, points.foldl (nearer comb) best = some b ∧ b.distance ≤ cornerDistance comb q.dev := by
  obtain ⟨first, last, rfl⟩ := List.append_of_mem mem
  rw [List.foldl_append, List.foldl_cons]
  obtain ⟨b, here, near⟩ := nearer_le comb (first.foldl (nearer comb) best) q
  obtain ⟨b', found, nearer⟩ := foldl_nearer_le comb last b
  rw [here]
  exact ⟨b', found, nearer.trans near⟩

/-- What a search finds with a point and without it: the same, or that point with it and nothing
nearer without it. -/
inductive Overlooks (comb : ℕ) (p : FitPoint ℝ) : Option (Nearest ℝ) → Option (Nearest ℝ) → Prop
  | same (best : Option (Nearest ℝ)) : Overlooks comb p best best
  | lost (best : Option (Nearest ℝ)) (far : ∀ b ∈ best, cornerDistance comb p.dev ≤ b.distance) :
      Overlooks comb p (some ⟨p, cornerDistance comb p.dev⟩) best

theorem Overlooks.start (best : Option (Nearest ℝ)) :
    Overlooks comb p (nearer comb best p) best := by
  cases best with
  | none => exact .lost _ nofun
  | some b =>
      by_cases less : cornerDistance comb p.dev < b.distance
      · rw [nearer, if_pos less]
        refine .lost _ fun b' mem => ?_
        cases mem
        exact less.le
      · rw [nearer, if_neg less]
        exact .same _

/-- A point that is strictly nearer than the other is found in both searches. -/
theorem Overlooks.meet {best best' : Option (Nearest ℝ)} (h : Overlooks comb p best best')
    (less : cornerDistance comb q.dev < cornerDistance comb p.dev) :
    nearer comb best q = nearer comb best' q := by
  cases h with
  | same => rfl
  | lost _ far =>
      cases best' with
      | none => exact if_pos less
      | some b =>
          have without : nearer comb (some b) q = some ⟨q, cornerDistance comb q.dev⟩ :=
            if_pos (less.trans_le (far b rfl))
          rw [without]
          exact if_pos less

theorem Overlooks.step {best best' : Option (Nearest ℝ)} (h : Overlooks comb p best best')
    (q : FitPoint ℝ) : Overlooks comb p (nearer comb best q) (nearer comb best' q) := by
  by_cases less : cornerDistance comb q.dev < cornerDistance comb p.dev
  · rw [h.meet less]
    exact .same _
  · cases h with
    | same => exact .same _
    | lost _ far =>
        have kept : nearer comb (some ⟨p, cornerDistance comb p.dev⟩) q =
            some ⟨p, cornerDistance comb p.dev⟩ := if_neg less
        rw [kept]
        refine .lost _ fun b mem => ?_
        cases best' with
        | none =>
            cases mem
            exact not_lt.mp less
        | some b' =>
            rw [nearer] at mem
            split at mem
            · cases mem
              exact not_lt.mp less
            · exact far b mem

theorem Overlooks.run {best best' : Option (Nearest ℝ)} (h : Overlooks comb p best best')
    (points : List (FitPoint ℝ)) :
    Overlooks comb p (points.foldl (nearer comb) best) (points.foldl (nearer comb) best') := by
  induction points generalizing best best' with
  | nil => exact h
  | cons q points ih => exact ih (h.step q)

variable (comb p before after) in
theorem nearestPoint_overlooks : Overlooks comb p (nearestPoint comb (before ++ p :: after))
    (nearestPoint comb (before ++ after)) := by
  rw [nearestPoint_eq, nearestPoint_eq, List.foldl_append, List.foldl_append, List.foldl_cons]
  exact (Overlooks.start _).run after

theorem nearestPoint_earlier (mem : q ∈ before)
    (near : cornerDistance comb q.dev ≤ cornerDistance comb p.dev) :
    nearestPoint comb (before ++ p :: after) = nearestPoint comb (before ++ after) := by
  rw [nearestPoint_eq, nearestPoint_eq, List.foldl_append, List.foldl_append, List.foldl_cons]
  obtain ⟨b, found, nearest⟩ := foldl_nearer_le_of_mem comb mem none
  have kept : nearer comb (some b) p = some b := if_neg (not_lt.mpr (nearest.trans near))
  rw [found, kept]

theorem nearestPoint_later (mem : q ∈ after)
    (less : cornerDistance comb q.dev < cornerDistance comb p.dev) :
    nearestPoint comb (before ++ p :: after) = nearestPoint comb (before ++ after) := by
  obtain ⟨first, last, rfl⟩ := List.append_of_mem mem
  have meets := (nearestPoint_overlooks comb p before first).meet less
  rw [nearestPoint_eq, nearestPoint_eq] at meets ⊢
  simp only [List.foldl_append, List.foldl_cons] at meets ⊢
  rw [meets]

end Nearest

/-! The start. -/

section Start

variable {n comb j : ℕ} {additive : Bool} {t : Tuning ℝ}
variable {nearest nearest' : Array (Option (Nearest ℝ))}

theorem combChannels_zero : combChannels n 0 = [] := by
  simp [combChannels]

theorem combChannels_single {m : ℕ} : (combChannels n (1 <<< m)).length < 2 := by
  have own : ∀ k ∈ combChannels n (1 <<< m), k = m := by
    intro k mem
    simpa [combChannels, Nat.one_shiftLeft, Nat.testBit_two_pow, eq_comm] using
      (List.mem_filter.mp mem).2
  have nodup : (combChannels n (1 <<< m)).Nodup := List.nodup_range.filter _
  rw [List.eq_replicate_of_mem own, List.nodup_replicate] at nodup
  omega

/-- What the nearest point to a combination has in band `j`. -/
def nearestValue {α : Type} [Scalar α] (nearest : Array (Option (Nearest α))) (j c : ℕ) : α :=
  match nearest.getD c none with
  | some near => near.point.target.getD j 0
  | none => 0

theorem startPrimary_eq : startPrimary n additive t nearest j comb =
    if (combChannels n comb).length < 2 ∨
        ∃ near ∈ nearest.getD comb none, near.distance < t.nearSquared then
      nearestValue nearest j comb
    else overprint additive t (nearestValue nearest j 0)
      ((combChannels n comb).map fun m => nearestValue nearest j (1 <<< m)) := by
  change (if decide ((combChannels n comb).length < 2) || _ then nearestValue nearest j comb
    else overprint additive t (nearestValue nearest j 0)
      ((combChannels n comb).map fun m => nearestValue nearest j (1 <<< m))) = _
  congr 1
  cases nearest.getD comb none <;> simp

/-- A start depends on the nearest point to its combination and to the single inks; for an overprint
that nothing comes near, on the latter alone. -/
theorem startPrimary_congr
    (single : ∀ c < 2 ^ n, (combChannels n c).length < 2 →
      nearest.getD c none = nearest'.getD c none) (hc : comb < 2 ^ n)
    (here : nearest.getD comb none = nearest'.getD comb none ∨
      (∀ b ∈ nearest.getD comb none, t.nearSquared ≤ b.distance) ∧
        ∀ b ∈ nearest'.getD comb none, t.nearSquared ≤ b.distance) :
    startPrimary n additive t nearest j comb = startPrimary n additive t nearest' j comb := by
  rw [startPrimary_eq, startPrimary_eq]
  by_cases few : (combChannels n comb).length < 2
  · simp only [few, true_or, if_true, nearestValue, single comb hc few]
  · have substrate : nearestValue nearest j 0 = nearestValue nearest' j 0 := by
      rw [nearestValue, single 0 (Nat.two_pow_pos n) (by simp [combChannels_zero]), nearestValue]
    have inks : ((combChannels n comb).map fun m => nearestValue nearest j (1 <<< m)) =
        (combChannels n comb).map fun m => nearestValue nearest' j (1 <<< m) := by
      apply List.map_congr_left
      intro m mem
      have hm : m < n := List.mem_range.mp (List.mem_filter.mp mem).1
      have inside : 1 <<< m < 2 ^ n := by
        rw [Nat.one_shiftLeft]
        exact Nat.pow_lt_pow_right one_lt_two hm
      rw [nearestValue, single _ inside combChannels_single, nearestValue]
    rw [substrate, inks]
    rcases here with same | ⟨far, far'⟩
    · simp only [nearestValue, same]
    · have apart : ¬∃ near ∈ nearest.getD comb none, near.distance < t.nearSquared := by
        simpa using far
      have apart' : ¬∃ near ∈ nearest'.getD comb none, near.distance < t.nearSquared := by
        simpa using far'
      simp only [few, apart, apart', or_self, if_false]

end Start

/-! Samples that are passed over. -/

section PassedOver

variable {before after : List (Sample ℝ)} {s : Sample ℝ} {spectralBands : ℕ}

/-- Squared distance of a sample from a corner, within the range of the device. -/
noncomputable def Sample.distance (s : Sample ℝ) (comb : ℕ) : ℝ :=
  cornerDistance comb (s.dev.map saturate)

/-- Why the start of a fit does not look at a sample at a combination of `n` channels: another is
nearer, or as near and comes first, or the start of an overprint is an estimate. -/
inductive Sample.IsPassedOver (s : Sample ℝ) (before after : List (Sample ℝ)) (t : Tuning ℝ)
    (n comb : ℕ) : Prop
  | earlier (s' : Sample ℝ) (mem : s' ∈ before) (near : s'.distance comb ≤ s.distance comb)
  | later (s' : Sample ℝ) (mem : s' ∈ after) (nearer : s'.distance comb < s.distance comb)
  | overprint (inks : 2 ≤ (combChannels n comb).length) (far : t.nearSquared ≤ s.distance comb)

theorem nearestPoint_passedOver {t : Tuning ℝ} {n comb : ℕ}
    (passed : s.IsPassedOver before after t n comb) :
    nearestPoint comb ((before ++ s :: after).map (Sample.point spectralBands)) =
        nearestPoint comb ((before ++ after).map (Sample.point spectralBands)) ∨
      2 ≤ (combChannels n comb).length ∧
        (∀ b ∈ nearestPoint comb ((before ++ s :: after).map (Sample.point spectralBands)),
          t.nearSquared ≤ b.distance) ∧
        ∀ b ∈ nearestPoint comb ((before ++ after).map (Sample.point spectralBands)),
          t.nearSquared ≤ b.distance := by
  rw [List.map_append, List.map_cons, List.map_append]
  cases passed with
  | earlier s' mem near => exact .inl (nearestPoint_earlier (List.mem_map_of_mem mem) near)
  | later s' mem nearer => exact .inl (nearestPoint_later (List.mem_map_of_mem mem) nearer)
  | overprint inks far =>
      have overlooks := nearestPoint_overlooks comb (s.point spectralBands)
        (before.map (Sample.point spectralBands)) (after.map (Sample.point spectralBands))
      generalize nearestPoint comb (before.map (Sample.point spectralBands) ++
        s.point spectralBands :: after.map (Sample.point spectralBands)) = best at overlooks ⊢
      generalize nearestPoint comb (before.map (Sample.point spectralBands) ++
        after.map (Sample.point spectralBands)) = best' at overlooks ⊢
      cases overlooks with
      | same => exact .inl rfl
      | lost _ farther =>
          refine .inr ⟨inks, ?_, fun b mem => far.trans (farther b mem)⟩
          intro b mem
          cases mem
          exact far

/-- The start does not see a sample that is passed over at every combination. -/
theorem initialBands_passedOver {l : Layout} {additive : Bool} {t : Tuning ℝ}
    (accepted : ∀ s' ∈ before ++ s :: after, s'.Accepted l.channels spectralBands)
    (others : before ++ after ≠ [])
    (passed : ∀ comb < l.combinations, s.IsPassedOver before after t l.channels comb) :
    initialBands l ((before ++ s :: after).map (Sample.point spectralBands)) additive t =
      initialBands l ((before ++ after).map (Sample.point spectralBands)) additive t := by
  have size {samples : List (Sample ℝ)} (nonempty : samples ≠ [])
      (each : ∀ s' ∈ samples, s'.Accepted l.channels spectralBands) :
      (initialBands l (samples.map (Sample.point spectralBands)) additive t).size =
        xyzBands + spectralBands :=
    initialBands_size (by simpa using nonempty) (forall₂_prepare each)
  have fewer : ∀ s' ∈ before ++ after, s'.Accepted l.channels spectralBands :=
    (forall_mem_beside.mp accepted).2
  have nearest (points : List (FitPoint ℝ)) {c : ℕ} (hc : c < l.combinations) :
      ((Array.range l.combinations).map fun comb => nearestPoint comb points).getD c none =
        nearestPoint c points := by
    simp [hc]
  apply Array.ext (by rw [size (by simp) accepted, size others fewer])
  intro j h₁ h₂
  simp only [initialBands, Array.getElem_map, Array.getElem_range, Band.mk.injEq, true_and]
  apply Array.ext (by simp)
  intro comb h₁ h₂
  have hc : comb < l.combinations := by simpa using h₁
  simp only [Array.getElem_map, Array.getElem_range]
  refine startPrimary_congr (fun c hc few => ?_) hc ?_
  · rw [nearest _ hc, nearest _ hc]
    exact (nearestPoint_passedOver (passed c hc)).resolve_right fun far => absurd far.1 (by omega)
  · rw [nearest _ hc, nearest _ hc]
    exact (nearestPoint_passedOver (passed comb hc)).imp_right And.right

end PassedOver

end InkModel
