import InkModel.Proofs.Profile.Faces

/-! # The cusps of a gamut

The corners of the device cube come many times among the points of its faces. Sorted and without
repeats each of them is there once, since the ink limit keeps different corners apart, and so it
is reported once.
-/

namespace InkModel

/-! Sorted lists without repeats. -/

section Sorted

theorem lexAfter_iff (xs ys : List ℝ) : lexAfter xs ys = true ↔ ys < xs := by
  induction xs generalizing ys with
  | nil => simp [lexAfter]
  | cons x xs ih =>
      cases ys with
      | nil => simp [lexAfter]
      | cons y ys =>
          rw [lexAfter, List.cons_lt_cons_iff]
          rcases lt_trichotomy y x with below | rfl | above
          · simp [below]
          · simp [ih]
          · simp [above, above.not_gt, above.ne']

theorem sameValues_iff (xs ys : List ℝ) : sameValues xs ys = true ↔ xs = ys := by
  induction xs generalizing ys with
  | nil => cases ys <;> simp [sameValues]
  | cons x xs ih => cases ys <;> simp [sameValues, ih]

/-- Without repeats a sorted list ascends, and it keeps all its entries. -/
theorem dropRepeats_ascends (xs : List (List ℝ)) (sorted : xs.Pairwise (· ≤ ·)) :
    (dropRepeats xs).Pairwise (· < ·) ∧ ∀ x, x ∈ dropRepeats xs ↔ x ∈ xs := by
  fun_induction dropRepeats xs with
  | case1 => simp
  | case2 x => simp
  | case3 x y rest same ih =>
      obtain rfl := (sameValues_iff x y).mp same
      obtain ⟨ascends, mem⟩ := ih (List.pairwise_cons.mp sorted).2
      exact ⟨ascends, fun z => by rw [mem]; simp⟩
  | case4 x y rest differ ih =>
      obtain ⟨least, sorted⟩ := List.pairwise_cons.mp sorted
      obtain ⟨ascends, mem⟩ := ih sorted
      have less : x < y := lt_of_le_of_ne (least y List.mem_cons_self)
        fun same => differ ((sameValues_iff x y).mpr same)
      refine ⟨List.pairwise_cons.mpr ⟨fun z hz => ?_, ascends⟩, fun z => by simp [mem]⟩
      rcases List.mem_cons.mp ((mem z).mp hz) with rfl | later
      · exact less
      · exact less.trans_le ((List.pairwise_cons.mp sorted).1 z later)

theorem mergeSort_sorted (xs : List (List ℝ)) :
    (xs.mergeSort fun x y => !lexAfter x y).Pairwise (· ≤ ·) := by
  have order (x y : List ℝ) : (!lexAfter x y) = true ↔ x ≤ y := by
    rw [Bool.not_eq_true', ← Bool.not_eq_true, lexAfter_iff, not_lt]
  have sorted : (xs.mergeSort fun x y => !lexAfter x y).Pairwise fun x y =>
      (!lexAfter x y) = true := List.pairwise_mergeSort
    (fun x y z h h' => (order x z).mpr (((order x y).mp h).trans ((order y z).mp h')))
    (fun x y => by rw [Bool.or_eq_true, order, order]; exact le_total x y) xs
  exact sorted.imp fun h => (order _ _).mp h

end Sorted

section Corners

variable {n : ℕ} {limit : Option ℝ} (pos : ∀ l, limit = some l → 0 < l)

/-- With two values of a sweep there are only corners. -/
theorem isFacePoint_two_iff {p : Array ℝ} :
    IsFacePoint n 2 p ↔ ∃ comb < 2 ^ n, cornerValues n comb = p := by
  constructor
  · intro face
    refine ⟨fullChannels n p, Nat.ofBits_lt_two_pow _, ?_⟩
    refine Array.ext (by simp [cornerValues, face.size]) fun m _ hm => Option.some.inj ?_
    have inside : m < n := face.size ▸ hm
    have ends : p[m] = 0 ∨ p[m] = 1 := by
      obtain ⟨i, hi, value⟩ := (isGridValue_iff le_rfl).mp
        (face.isGridValue le_rfl (Array.getElem_mem hm))
      rw [value, gridValue_eq le_rfl]
      interval_cases i
      · exact .inl (by norm_num)
      · exact .inr (by norm_num)
    rw [← Array.getElem?_eq_getElem, cornerValues_getElem? inside, cornerValue,
      testBit_fullChannels inside, Array.getElem?_eq_getElem hm]
    rcases ends with off | full
    · simp [off]
    · simp [full]
  · rintro ⟨comb, -, rfl⟩
    exact isFacePoint_cornerValues n 2 comb

include pos

/-- The limit leaves every channel at full that was there more than off. -/
theorem clipToLimit_pos_iff (dev : Array ℝ) {m : ℕ} :
    (∃ x, (clipToLimit dev limit)[m]? = some x ∧ 0 < x) ↔ ∃ x, dev[m]? = some x ∧ 0 < x := by
  cases limit with
  | none => rfl
  | some l =>
      have pos := pos l rfl
      rcases le_or_gt dev.toList.sum l with within | exceeds
      · rw [clipToLimit_of_le within]
      · have scale : 0 < l / dev.toList.sum := div_pos pos (pos.trans exceeds)
        rw [clipToLimit_of_lt pos exceeds, Array.getElem?_map]
        generalize l / dev.toList.sum = s at scale
        simp [mul_pos_iff_of_pos_right scale]

/-- The limit keeps different corners apart. -/
theorem clipToLimit_cornerValues_injOn :
    Set.InjOn (fun comb => clipToLimit (cornerValues n comb) limit) {comb | comb < 2 ^ n} := by
  have full {comb m : ℕ} (hm : m < n) :
      (∃ x, (clipToLimit (cornerValues n comb) limit)[m]? = some x ∧ 0 < x) ↔
        comb.testBit m = true := by
    rw [clipToLimit_pos_iff pos, cornerValues_getElem? hm]
    rcases cornerValue_cases comb m with ⟨bit, value⟩ | ⟨bit, value⟩ <;> simp [bit, value]
  intro comb hc comb' hc' same
  refine Nat.eq_of_testBit_eq fun m => ?_
  by_cases hm : m < n
  · rw [Bool.eq_iff_iff, ← full hm, ← full hm]
    exact iff_of_eq (congrArg (fun dev : Array ℝ => ∃ x, dev[m]? = some x ∧ 0 < x) same)
  · rw [lt_two_pow_iff.mp hc m (not_lt.mp hm), lt_two_pow_iff.mp hc' m (not_lt.mp hm)]

/-- The cusps are the corners within the limit, each once, in the order of their values. -/
theorem corners_perm (channels : 0 < n) :
    (corners n limit).Perm ((List.range (2 ^ n)).map fun comb =>
        clipToLimit (cornerValues n comb) limit) ∧
      (corners n limit).Pairwise fun x y => x.toList < y.toList := by
  obtain ⟨ascends, mem⟩ := dropRepeats_ascends _
    (mergeSort_sorted ((faceSamples n 2 limit).map Array.toList))
  have ordered : (corners n limit).Pairwise fun x y => x.toList < y.toList := by
    rw [corners, List.pairwise_map]
    exact ascends
  refine ⟨(List.perm_ext_iff_of_nodup ?_ ?_).mpr fun dev => ?_, ordered⟩
  · exact ordered.imp fun less same => less.ne (congrArg Array.toList same)
  · refine List.nodup_range.map_on fun comb hc comb' hc' same => ?_
    exact clipToLimit_cornerValues_injOn pos (List.mem_range.mp hc) (List.mem_range.mp hc') same
  · have there : dev ∈ corners n limit ↔ dev ∈ faceSamples n 2 limit := by
      simp only [corners, List.mem_map, mem, List.mem_mergeSort]
      constructor
      · rintro ⟨values, ⟨dev, mem, rfl⟩, rfl⟩
        exact mem
      · exact fun mem => ⟨dev.toList, ⟨dev, mem, rfl⟩, rfl⟩
    simp only [there, mem_faceSamples_iff channels le_rfl, isFacePoint_two_iff, List.mem_map,
      List.mem_range]
    constructor
    · rintro ⟨p, ⟨comb, hc, rfl⟩, rfl⟩
      exact ⟨comb, hc, rfl⟩
    · rintro ⟨comb, hc, rfl⟩
      exact ⟨_, ⟨comb, hc, rfl⟩, rfl⟩

end Corners

section Reports

variable {α σ : Type} [Scalar α] (receive : σ → GamutEvent α → σ)

omit [Scalar α] in
theorem forM_report {β ε : Type} (event : β → GamutEvent α) (xs : List β) (s : σ) :
    (xs.forM fun x => (modify (receive · (event x)) : EStateM ε σ Unit)).run s =
      .ok () ((xs.map event).foldl receive s) := by
  induction xs generalizing s with
  | nil => rfl
  | cons x xs ih => exact ih (receive s (event x))

/-- The reports of a gamut with its samples and its cusps. -/
def Model.reports (m : Model α) (samples cusps : List (Array α)) : List (GamutEvent α) :=
  (samples.map fun dev => .expand (m.lookupLab dev)) ++
    .beginCusps :: (cusps.map fun dev => .addCusp (m.lookupLab dev)) ++
    [.endCusps, .neutrals m.neutrals.white.xyz.toLab m.neutrals.black.xyz.toLab
      m.neutrals.inkBlack.xyz.toLab]

/-- A receiver gets the reports of the gamut one by one, and none when the detail is refused. -/
theorem Model.feedGamut_run (m : Model α) (detail : α) (s : σ) :
    (m.feedGamut receive detail).run s =
      match m.gamut detail with
      | .ok events => .ok () (events.foldl receive s)
      | .error e => .error e s := by
  unfold feedGamut gamut
  cases m.gamutSamples detail with
  | error e => rfl
  | ok devs =>
      simp only [EStateM.run_bind, forM_report, Except.map, List.foldl_append, List.foldl_cons,
        List.foldl_nil]
      rfl

/-- A whole surface has taken up all reports. -/
theorem Model.surface_eq (m : Model α) (detail : α) :
    m.surface detail = (m.gamut detail).map (GamutSurface.receiveAll {}) := by
  rw [surface, feedGamut_run]
  cases m.gamut detail <;> rfl

variable {solver : Solver ℝ} {parts : Parts ℝ} {tuning : Tuning ℝ} {built m : Model ℝ}

/-- A receiver gets the samples in their order, every corner of the device within the ink limit
once, in the order of their values, and then white and black. With a detail that is refused it
gets nothing. -/
theorem feedGamut_reports (build : Model.build solver parts tuning = .ok built)
    (reached : Model.Reached solver built m) (detail : ℝ) {σ : Type}
    (receive : σ → GamutEvent ℝ → σ) (s : σ) :
    (∀ e, m.gamutSamples detail = .error e →
      (m.feedGamut receive detail).run s = .error e s) ∧
    ∀ devs, m.gamutSamples detail = .ok devs → ∃ cusps : List (Array ℝ),
      cusps.length = 2 ^ m.channels ∧
      cusps.Perm ((List.range (2 ^ m.channels)).map fun comb =>
        clipToLimit (cornerValues m.channels comb) m.limit) ∧
      (cusps.Pairwise fun x y => x.toList < y.toList) ∧
      (m.feedGamut receive detail).run s = .ok () ((m.reports devs cusps).foldl receive s) := by
  have run := m.feedGamut_run receive detail s
  rw [Model.gamut] at run
  constructor
  · intro e refused
    rwa [refused] at run
  · intro devs sampled
    obtain ⟨once, ordered⟩ := corners_perm (Model.Reached.limit_pos build reached) m.channels_pos
    rw [sampled] at run
    refine ⟨corners m.channels m.limit, ?_, once, ordered, run⟩
    rw [once.length_eq, List.length_map, List.length_range]

theorem feedGamut_reports_colorModel :
    ∃ devs cusps, devs.length = 54 ∧ cusps.length = 8 ∧
      ((colorModel : Model ℝ).feedGamut Array.push 50).run #[] =
        .ok () (colorModel.reports devs cusps).toArray := by
  obtain ⟨devs, sampled⟩ : ∃ devs, (colorModel : Model ℝ).gamutSamples 50 = .ok devs := by
    refine ⟨_, Model.gamutSamples_eq_ok_iff.mpr ⟨by norm_num, ?_, rfl⟩⟩
    rw [sampleCount_colorModel]
    decide
  obtain ⟨cusps, length, -, -, run⟩ :=
    (feedGamut_reports colorModel_built .built 50 Array.push #[]).2 devs sampled
  refine ⟨devs, cusps, ?_, length, by rw [run]; simp⟩
  obtain ⟨-, -, rfl⟩ := Model.gamutSamples_eq_ok_iff.mp sampled
  rw [faceSamples_length (Model.channels_pos _), sampleCount_colorModel]

end Reports

end InkModel
