import InkModel.Fit.Schedule
import InkModel.Proofs.Color.Spectrum

/-! # The order of the bands

A fit goes through all bands once. From the band near 555 nm it goes up and then down, always to the
next band, so a band that it starts from has had its turn.
-/

namespace InkModel

/-- Whether no turn is at a band of `done` or of an earlier turn, and all start from such a band. -/
def ReadyOrder : List ℕ → List Turn → Prop
  | _, [] => True
  | done, turn :: turns =>
    turn.band ∉ done ∧ (∀ source ∈ turn.source, source ∈ done) ∧
      ReadyOrder (turn.band :: done) turns

namespace ReadyOrder

variable {done : List ℕ} {xs ys : List Turn}

theorem append_iff : ReadyOrder done (xs ++ ys) ↔
    ReadyOrder done xs ∧ ReadyOrder ((xs.map Turn.band).reverse ++ done) ys := by
  induction xs generalizing done with
  | nil => simp [ReadyOrder]
  | cons turn xs ih => simp [ReadyOrder, ih, and_assoc]

theorem nodup (ready : ReadyOrder done xs) : (xs.map Turn.band).Nodup ∧
    ∀ j ∈ xs.map Turn.band, j ∉ done := by
  induction xs generalizing done with
  | nil => simp
  | cons turn xs ih =>
    obtain ⟨new, -, rest⟩ := ready
    obtain ⟨once, others⟩ := ih rest
    constructor
    · exact List.nodup_cons.mpr ⟨fun again => others _ again List.mem_cons_self, once⟩
    · intro j mem
      rcases List.mem_cons.mp mem with rfl | mem
      · exact new
      · exact fun old => others j mem (List.mem_cons_of_mem _ old)

variable {before after : List Turn} {turn : Turn}

/-- A turn is at a band of its own, and starts from a band that had its turn before. -/
theorem split (ready : ReadyOrder [] (before ++ turn :: after)) :
    turn.band ∉ before.map Turn.band ∧ turn.band ∉ after.map Turn.band ∧
      ∀ source ∈ turn.source, source ∈ before.map Turn.band ∧
        source ∉ (turn :: after).map Turn.band := by
  obtain ⟨-, new, sources, later⟩ := append_iff.mp ready
  simp only [List.append_nil, List.mem_reverse] at new sources
  obtain ⟨once, -⟩ := ready.nodup
  rw [List.map_append, List.nodup_append'] at once
  obtain ⟨-, rest, apart⟩ := once
  exact ⟨new, (List.nodup_cons.mp rest).1, fun source own =>
    ⟨sources source own, apart (sources source own)⟩⟩

end ReadyOrder

/-! The walks out of the first band. -/

section Walk

variable {done : List ℕ}

/-- The turns of a walk to longer wavelengths, which goes over the given bands. -/
def walkUp (is : List ℕ) : List Turn :=
  is.map fun i => ⟨spectralBand i, some (spectralBand (i - 1))⟩

/-- The turns of a walk to shorter wavelengths, which goes over the given bands. -/
def walkDown (is : List ℕ) : List Turn :=
  is.map fun i => ⟨spectralBand i, some (spectralBand (i + 1))⟩

theorem filter_above (start n : ℕ) :
    (List.range n).filter (start < ·) = List.range' (start + 1) (n - (start + 1)) := by
  induction n with
  | zero => simp
  | succ n ih =>
    rw [List.range_succ, List.filter_append, ih]
    by_cases above : start < n
    · have more : n + 1 - (start + 1) = n - (start + 1) + 1 := by omega
      have last : start + 1 + (n - (start + 1)) = n := by omega
      simp [above, more, List.range'_1_concat, last]
    · have none : n + 1 - (start + 1) = n - (start + 1) := by omega
      simp [above, none]

theorem walkUp_ready (i count : ℕ) (reached : spectralBand i ∈ done)
    (highest : ∀ j ∈ done, j ≤ spectralBand i) :
    ReadyOrder done (walkUp (List.range' (i + 1) count)) := by
  induction count generalizing i done with
  | zero => trivial
  | succ count ih =>
    refine ⟨fun again => ?_, by simpa [walkUp] using reached, ih (i + 1) List.mem_cons_self ?_⟩
    · have := highest _ again
      simp [spectralBand] at this
    · intro j mem
      rcases List.mem_cons.mp mem with rfl | old
      · rfl
      · have := highest j old
        simp only [spectralBand] at *
        omega

theorem walkDown_ready (i : ℕ) (reached : spectralBand i ∈ done)
    (lowest : ∀ j ∈ done, spectralBand i ≤ j) :
    ReadyOrder done (walkDown (List.range i).reverse) := by
  induction i generalizing done with
  | zero => trivial
  | succ i ih =>
    rw [List.range_succ, List.reverse_append]
    refine ⟨fun again => ?_, by simpa [walkDown] using reached, ih List.mem_cons_self ?_⟩
    · have := lowest _ again
      simp [spectralBand] at this
    · intro j mem
      rcases List.mem_cons.mp mem with rfl | old
      · rfl
      · have := lowest j old
        simp only [spectralBand] at *
        omega

end Walk

section Order

variable {s : SpectralShape ℝ}

/-- The turns after the first, up to the last spectral one. -/
def walkOut (start bands : ℕ) : List Turn :=
  walkUp ((List.range bands).filter (start < ·)) ++ walkDown (List.range start).reverse

theorem bandOrder_some (s : SpectralShape ℝ) : bandOrder (some s) =
    ⟨spectralBand (s.indexNearest 555), none⟩ :: walkOut (s.indexNearest 555) s.bands ++
      [⟨1, some (spectralBand (s.indexNearest 555))⟩,
        ⟨0, some (spectralBand (s.indexNearest 600))⟩,
        ⟨2, some (spectralBand (s.indexNearest 445))⟩] := rfl

/-- Each turn of the walk starts from a neighbour. -/
theorem walkOut_adjacent {start bands : ℕ} (inside : start < bands) {turn : Turn}
    (mem : turn ∈ walkOut start bands) : ∃ i < bands, ∃ k < bands, (i = k + 1 ∨ k = i + 1) ∧
      turn = ⟨spectralBand i, some (spectralBand k)⟩ := by
  simp only [walkOut, walkUp, walkDown, List.mem_append, List.mem_map, List.mem_filter,
    List.mem_range, List.mem_reverse, decide_eq_true_eq] at mem
  rcases mem with ⟨i, ⟨hi, above⟩, rfl⟩ | ⟨i, below, rfl⟩
  · exact ⟨i, hi, i - 1, by omega, by omega, rfl⟩
  · exact ⟨i, by omega, i + 1, by omega, by omega, rfl⟩

theorem mem_walkOut {start bands j : ℕ} (inside : start < bands) :
    j ∈ spectralBand start :: (walkOut start bands).map Turn.band ↔
      ∃ i < bands, j = spectralBand i := by
  simp only [walkOut, walkUp, walkDown, List.map_append, List.map_map, List.mem_cons,
    List.mem_append, List.mem_map, List.mem_filter, List.mem_range, List.mem_reverse,
    decide_eq_true_eq, Function.comp_apply]
  constructor
  · rintro (rfl | ⟨i, ⟨hi, -⟩, rfl⟩ | ⟨i, below, rfl⟩)
    · exact ⟨start, inside, rfl⟩
    · exact ⟨i, hi, rfl⟩
    · exact ⟨i, by omega, rfl⟩
  · rintro ⟨i, hi, rfl⟩
    rcases lt_trichotomy i start with below | rfl | above
    · exact .inr (.inr ⟨i, below, rfl⟩)
    · exact .inl rfl
    · exact .inr (.inl ⟨i, ⟨hi, above⟩, rfl⟩)

theorem walkOut_ready (start bands : ℕ) :
    ReadyOrder [spectralBand start] (walkOut start bands) := by
  refine ReadyOrder.append_iff.mpr ⟨?_, ?_⟩
  · rw [filter_above]
    exact walkUp_ready start _ (by simp) (by simp)
  · refine walkDown_ready start (by simp) fun j mem => ?_
    simp only [walkUp, List.map_map, List.mem_append, List.mem_reverse, List.mem_map,
      List.mem_filter, List.mem_range, decide_eq_true_eq, Function.comp_apply,
      List.mem_singleton] at mem
    rcases mem with ⟨i, ⟨-, above⟩, rfl⟩ | rfl
    · exact Nat.add_le_add_left above.le _
    · rfl

theorem colors_ready {done : List ℕ} {bands y x z : ℕ}
    (spectral : ∀ j, j ∈ done ↔ ∃ i < bands, j = spectralBand i) (hy : y < bands) (hx : x < bands)
    (hz : z < bands) : ReadyOrder done
      [⟨1, some (spectralBand y)⟩, ⟨0, some (spectralBand x)⟩, ⟨2, some (spectralBand z)⟩] := by
  have apart {j : ℕ} (color : j < 3) : j ∉ done := by
    rw [spectral]
    rintro ⟨i, -, rfl⟩
    simp [spectralBand, xyzBands] at color
  have reached {i : ℕ} (hi : i < bands) : spectralBand i ∈ done := (spectral _).mpr ⟨i, hi, rfl⟩
  simp [ReadyOrder, apart, reached, hy, hx, hz]

theorem bandOrder_ready {spectral : Option (SpectralShape ℝ)}
    (positive : ∀ s, spectral = some s → 0 < s.bands) : ReadyOrder [] (bandOrder spectral) := by
  cases spectral with
  | none => simp [bandOrder, ReadyOrder]
  | some s =>
    have inside := indexNearest_lt (positive s rfl)
    rw [bandOrder_some]
    refine ReadyOrder.append_iff.mpr ⟨⟨by simp, by simp, walkOut_ready _ _⟩, ?_⟩
    refine colors_ready (fun j => ?_) (inside 555) (inside 600) (inside 445)
    rw [List.append_nil, List.mem_reverse, List.map_cons, mem_walkOut (inside 555)]

theorem mem_bandOrder {spectral : Option (SpectralShape ℝ)}
    (positive : ∀ s, spectral = some s → 0 < s.bands) (j : ℕ) :
    j ∈ (bandOrder spectral).map Turn.band ↔
      j < xyzBands + (spectral.map SpectralShape.bands).getD 0 := by
  cases spectral with
  | none =>
    simp only [bandOrder, List.map_cons, List.map_nil, List.mem_cons, List.not_mem_nil, or_false,
      Option.map_none, Option.getD_none, xyzBands]
    omega
  | some s =>
    have spectral := mem_walkOut (j := j) (indexNearest_lt (positive s rfl) 555)
    rw [bandOrder_some, List.map_append, List.mem_append, List.map_cons, spectral]
    simp only [spectralBand, xyzBands, List.map_cons, List.map_nil, List.mem_cons,
      List.not_mem_nil, or_false, Option.map_some, Option.getD_some]
    constructor
    · rintro (⟨i, hi, rfl⟩ | rfl | rfl | rfl) <;> omega
    · intro below
      by_cases color : j < 3
      · omega
      · exact .inl ⟨j - 3, by omega, by omega⟩

theorem bandOrder_perm {spectral : Option (SpectralShape ℝ)}
    (positive : ∀ s, spectral = some s → 0 < s.bands) :
    ((bandOrder spectral).map Turn.band).Perm
      (List.range (xyzBands + (spectral.map SpectralShape.bands).getD 0)) := by
  refine (List.perm_ext_iff_of_nodup (bandOrder_ready positive).nodup.1 List.nodup_range).mpr ?_
  intro j
  rw [mem_bandOrder positive, List.mem_range]

theorem bands_eq_of_count {spectralBands : ℕ}
    (count : (spectralCount (some s) : Except (ModelError ℝ) ℕ) = .ok spectralBands) :
    s.bands = spectralBands := by
  rw [spectralCount] at count
  split at count
  · cases count
  · exact Except.ok.inj count

theorem bandOrder_inside {spectral : Option (SpectralShape ℝ)} {spectralBands : ℕ}
    (positive : ∀ s, spectral = some s → 0 < s.bands)
    (count : (spectralCount spectral : Except (ModelError ℝ) ℕ) = .ok spectralBands) :
    ∀ turn ∈ bandOrder spectral, turn.band < xyzBands + spectralBands ∧
      ∀ source ∈ turn.source, source < xyzBands + spectralBands := by
  have bands : (spectral.map SpectralShape.bands).getD 0 = spectralBands := by
    cases spectral with
    | none => exact Except.ok.inj count
    | some s => exact bands_eq_of_count count
  have ready := bandOrder_ready positive
  have inside := fun j => (mem_bandOrder positive j).mp
  rw [bands] at inside
  intro turn mem
  refine ⟨inside _ (List.mem_map_of_mem mem), fun source own => inside _ ?_⟩
  obtain ⟨before, after, order⟩ := List.append_of_mem mem
  rw [order] at ready ⊢
  rw [List.map_append]
  exact List.mem_append_left _ (ready.split.2.2 source own).1

/-- Only the first turn has no source. -/
theorem bandOrder_source {spectral : Option (SpectralShape ℝ)} {before after : List Turn}
    {turn : Turn} (order : bandOrder spectral = before ++ turn :: after) :
    turn.source = none ↔ before = [] := by
  have sources : ∃ first rest, bandOrder spectral = first :: rest ∧ first.source = none ∧
      ∀ turn ∈ rest, turn.source ≠ none := by
    cases spectral with
    | none => exact ⟨_, _, rfl, rfl, by simp⟩
    | some s =>
      refine ⟨_, walkOut (s.indexNearest 555) s.bands ++ _, bandOrder_some s, rfl, ?_⟩
      intro turn mem
      simp only [walkOut, walkUp, walkDown, List.mem_append, List.mem_map, List.mem_cons,
        List.not_mem_nil, or_false] at mem
      rcases mem with (⟨i, -, rfl⟩ | ⟨i, -, rfl⟩) | rfl | rfl | rfl <;> simp
  obtain ⟨first, rest, same, none, some⟩ := sources
  rw [same] at order
  cases before with
  | nil =>
    obtain ⟨rfl, -⟩ := List.cons.inj order
    simp [none]
  | cons _ before =>
    obtain ⟨-, rfl⟩ := List.cons.inj order
    simp [some turn (by simp)]

end Order

end InkModel
