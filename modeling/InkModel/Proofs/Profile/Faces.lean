import InkModel.Profile.Gamut
import InkModel.Proofs.Device.Corners
import InkModel.Proofs.Profile.Legal

/-! # The faces of the device cube

A gamut samples every point of the faces at the values of its sweep and no other point, as many
of them as were counted before there was one. Pulled back within the ink limit they stay in the
device cube.
-/

namespace InkModel

open Finset

section Grid

variable {res : ℕ}

/-- A multiple of the spacing of `res` values from 0 to 1, in that range. -/
def IsGridValue (res : ℕ) (x : ℝ) : Prop :=
  x ∈ Set.Icc (0 : ℝ) 1 ∧ ∃ i : ℕ, x = i * (1 / (res - 1))

theorem gridValue_eq (two : 2 ≤ res) (i : ℕ) : (gridValue res i : ℝ) = i * (1 / (res - 1)) := by
  change (i : ℝ) / ((res - 1 : ℕ) : ℝ) = _
  rw [Nat.cast_pred (two_pos.trans_le two), mul_one_div]

theorem spacing_pos (two : 2 ≤ res) : (0 : ℝ) < res - 1 := by
  have : (2 : ℝ) ≤ res := mod_cast two
  linarith

/-- The values of a sweep are the multiples of their spacing in range, the ends among them. -/
theorem isGridValue_iff (two : 2 ≤ res) {x : ℝ} :
    IsGridValue res x ↔ ∃ i < res, x = gridValue res i := by
  have pos := spacing_pos two
  simp only [gridValue_eq two]
  constructor
  · rintro ⟨⟨-, le⟩, i, rfl⟩
    rw [mul_one_div, div_le_one pos] at le
    have le : ((i + 1 : ℕ) : ℝ) ≤ res := by
      push_cast
      linarith
    exact ⟨i, Nat.cast_le.mp le, rfl⟩
  · rintro ⟨i, hi, rfl⟩
    have hi : ((i + 1 : ℕ) : ℝ) ≤ res := Nat.cast_le.mpr hi
    push_cast at hi
    rw [mul_one_div]
    refine ⟨⟨div_nonneg i.cast_nonneg pos.le, ?_⟩, i, (mul_one_div _ _).symm⟩
    rw [div_le_one pos]
    linarith

theorem IsGridValue.zero (res : ℕ) : IsGridValue res 0 :=
  ⟨⟨le_rfl, zero_le_one⟩, 0, by rw [Nat.cast_zero, zero_mul]⟩

theorem IsGridValue.one (two : 2 ≤ res) : IsGridValue res 1 := by
  refine ⟨⟨zero_le_one, le_rfl⟩, res - 1, ?_⟩
  rw [Nat.cast_pred (two_pos.trans_le two), mul_one_div, div_self (spacing_pos two).ne']

end Grid

/-- A point of a face of the device cube: but for two channels, every one is off or at full, and
those two are swept over `res` values. -/
structure IsFacePoint (n res : ℕ) (p : Array ℝ) : Prop where
  size : p.size = n
  ends : n ≤ {m ∈ range n | p[m]? = some 0 ∨ p[m]? = some 1}.card + 2
  grid : ∀ x ∈ p, x = 0 ∨ x = 1 ∨ IsGridValue res x

section Points

variable {n res : ℕ}

theorem IsFacePoint.isGridValue (two : 2 ≤ res) {p : Array ℝ} (face : IsFacePoint n res p) {x : ℝ}
    (mem : x ∈ p) : IsGridValue res x := by
  obtain rfl | rfl | grid := face.grid x mem
  · exact .zero res
  · exact .one two
  · exact grid

theorem IsFacePoint.unit {p : Array ℝ} (face : IsFacePoint n res p) :
    ∀ x ∈ p, x ∈ Set.Icc (0 : ℝ) 1 := by
  intro x mem
  obtain rfl | rfl | grid := face.grid x mem
  · exact ⟨le_rfl, zero_le_one⟩
  · exact ⟨zero_le_one, le_rfl⟩
  · exact grid.1

/-- The bit of `fixed` that stands for channel `m` counts the channels without `a` and `b`. -/
theorem facePoint_getElem {a b fixed i j m : ℕ} (less : a < b)
    (hm : m < (facePoint n res a b fixed i j : Array ℝ).size) :
    (facePoint n res a b fixed i j : Array ℝ)[m] =
      if m = a then gridValue res i else if m = b then gridValue res j
      else if fixed.testBit (otherPosition a (otherPosition b m)) then 1 else 0 := by
  have position (ha : m ≠ a) (hb : m ≠ b) :
      m - (if a < m then 1 else 0) - (if b < m then 1 else 0) =
        otherPosition a (otherPosition b m) := by
    unfold otherPosition
    split_ifs <;> omega
  simp only [facePoint, Array.getElem_map, Array.getElem_range]
  split
  · rfl
  · split
    · rfl
    · rw [position ‹_› ‹_›]
      change (((fixed >>> _) % 2 : ℕ) : ℝ) = _
      rw [Nat.testBit_eq_decide_div_mod_eq, Nat.shiftRight_eq_div_pow]
      rcases Nat.mod_two_eq_zero_or_one (fixed / 2 ^ otherPosition a (otherPosition b m)) with
        bit | bit <;> simp [bit]

theorem facePoint_isFacePoint (two : 2 ≤ res) {a b fixed i j : ℕ} (less : a < b) (hi : i < res)
    (hj : j < res) : IsFacePoint n res (facePoint n res a b fixed i j) := by
  have size : (facePoint n res a b fixed i j : Array ℝ).size = n := by simp [facePoint]
  refine ⟨size, ?_, fun x mem => ?_⟩
  · have others : range n \ {a, b} ⊆ {m ∈ range n |
        (facePoint n res a b fixed i j : Array ℝ)[m]? = some 0 ∨
          (facePoint n res a b fixed i j : Array ℝ)[m]? = some 1} := by
      intro m mem
      simp only [mem_sdiff, mem_range, mem_insert, mem_singleton, not_or] at mem
      obtain ⟨hm, ha, hb⟩ := mem
      rw [mem_filter, mem_range, Array.getElem?_eq_getElem (by rwa [size]), facePoint_getElem less,
        if_neg ha, if_neg hb]
      refine ⟨hm, ?_⟩
      split
      · exact .inr rfl
      · exact .inl rfl
    have left := card_le_card others
    have removed := le_card_sdiff {a, b} (range n)
    have pair : ({a, b} : Finset ℕ).card ≤ 2 := card_le_two
    rw [card_range] at removed
    omega
  · obtain ⟨m, hm, rfl⟩ := Array.mem_iff_getElem.mp mem
    rw [facePoint_getElem less]
    split
    · exact .inr (.inr ((isGridValue_iff two).mpr ⟨i, hi, rfl⟩))
    · split
      · exact .inr (.inr ((isGridValue_iff two).mpr ⟨j, hj, rfl⟩))
      · split
        · exact .inr (.inl rfl)
        · exact .inl rfl

/-- The combination of the channels at full. -/
noncomputable def fullChannels (n : ℕ) (p : Array ℝ) : ℕ :=
  Nat.ofBits fun m : Fin n => decide (p[m.1]? = some 1)

theorem testBit_fullChannels {m : ℕ} (hm : m < n) (p : Array ℝ) :
    (fullChannels n p).testBit m = decide (p[m]? = some 1) := by
  rw [fullChannels, Nat.testBit_ofBits_lt _ _ hm]

/-- Two channels at least hold all values of a face point that are neither off nor at full. -/
theorem IsFacePoint.exists_channels {p : Array ℝ} (face : IsFacePoint n res p) (two : 2 ≤ n) :
    ∃ a b, a < b ∧ b < n ∧ ∀ m < n, m ≠ a → m ≠ b → p[m]? = some 0 ∨ p[m]? = some 1 := by
  have few : {m ∈ range n | ¬(p[m]? = some 0 ∨ p[m]? = some 1)}.card ≤ 2 := by
    have all := card_filter_add_card_filter_not (s := range n)
      fun m => p[m]? = some 0 ∨ p[m]? = some 1
    have := face.ends
    rw [card_range] at all
    omega
  obtain ⟨pair, swept, inside, count⟩ := exists_subsuperset_card_eq (filter_subset _ (range n)) few
    (by rwa [card_range])
  obtain ⟨a, b, apart, rfl⟩ := card_eq_two.mp count
  have ends {m : ℕ} (hm : m < n) (ha : m ≠ a) (hb : m ≠ b) :
      p[m]? = some 0 ∨ p[m]? = some 1 := by
    by_contra neither
    have mem := swept (mem_filter.mpr ⟨mem_range.mpr hm, neither⟩)
    simp [ha, hb] at mem
  have ha : a < n := mem_range.mp (inside (mem_insert_self a _))
  have hb : b < n := mem_range.mp (inside (mem_insert_of_mem (mem_singleton_self b)))
  rcases apart.lt_or_gt with less | less
  · exact ⟨a, b, less, hb, fun m hm => ends hm⟩
  · exact ⟨b, a, less, ha, fun m hm mb ma => ends hm ma mb⟩

theorem IsFacePoint.exists_facePoint (many : 2 ≤ n) (two : 2 ≤ res) {p : Array ℝ}
    (face : IsFacePoint n res p) :
    ∃ a b fixed i j, a < b ∧ b < n ∧ fixed < 2 ^ (n - 2) ∧ i < res ∧ j < res ∧
      facePoint n res a b fixed i j = p := by
  obtain ⟨a, b, less, hb, ends⟩ := face.exists_channels many
  have ha := less.trans hb
  have grid {m : ℕ} (hm : m < n) :
      ∃ i < res, p[m]? = some (gridValue res i) := by
    have hm : m < p.size := face.size.symm ▸ hm
    obtain ⟨i, hi, value⟩ := (isGridValue_iff two).mp (face.isGridValue two (Array.getElem_mem hm))
    exact ⟨i, hi, by rw [Array.getElem?_eq_getElem hm, value]⟩
  obtain ⟨i, hi, atA⟩ := grid ha
  obtain ⟨j, hj, atB⟩ := grid hb
  refine ⟨a, b, shapeSlot a (shapeSlot b (fullChannels n p)), i, j, less, hb, ?_, hi, hj, ?_⟩
  · exact shapeSlot_lt (n := n - 1) (less.trans_le (Nat.le_sub_one_of_lt hb))
      (shapeSlot_lt hb (Nat.ofBits_lt_two_pow _))
  · have size : (facePoint n res a b (shapeSlot a (shapeSlot b (fullChannels n p))) i j :
        Array ℝ).size = n := by simp [facePoint]
    refine Array.ext (size.trans face.size.symm) fun m hm hm' => Option.some.inj ?_
    have inside := size ▸ hm
    rw [facePoint_getElem less, ← Array.getElem?_eq_getElem hm']
    split
    · rw [‹m = a›, atA]
    · split
      · rw [‹m = b›, atB]
      · have outer : otherPosition b m ≠ a := by
          unfold otherPosition
          split <;> omega
        rw [testBit_shapeSlot, otherChannel_otherPosition outer, testBit_shapeSlot,
          otherChannel_otherPosition ‹m ≠ b›, testBit_fullChannels inside]
        rcases ends m inside ‹_› ‹_› with off | full
        · simp [off]
        · simp [full]

/-- The sweep makes the points of the faces at its values and no others. -/
theorem mem_facePoints_iff (channels : 0 < n) (two : 2 ≤ res) {p : Array ℝ} :
    p ∈ facePoints n res ↔ IsFacePoint n res p := by
  rw [facePoints]
  split
  · rename_i one
    subst one
    simp only [List.mem_map, List.mem_range]
    constructor
    · rintro ⟨i, hi, rfl⟩
      refine ⟨rfl, by omega, fun x mem => .inr (.inr ?_)⟩
      rw [List.mem_toArray, List.mem_singleton] at mem
      exact (isGridValue_iff two).mpr ⟨i, hi, mem⟩
    · intro face
      obtain ⟨x, rfl⟩ := Array.size_eq_one_iff.mp face.size
      obtain ⟨i, hi, value⟩ := (isGridValue_iff two).mp
        (face.isGridValue two (List.mem_toArray.mpr (List.mem_singleton_self x)))
      exact ⟨i, hi, by rw [value]⟩
  · simp only [List.mem_flatMap, List.mem_filter, List.mem_map, List.mem_range, decide_eq_true_eq]
    constructor
    · rintro ⟨a, -, b, ⟨-, less⟩, fixed, -, i, hi, j, hj, rfl⟩
      exact facePoint_isFacePoint two less hi hj
    · intro face
      obtain ⟨a, b, fixed, i, j, less, hb, bits, hi, hj, rfl⟩ :=
        face.exists_facePoint (by omega) two
      exact ⟨a, less.trans hb, b, ⟨hb, less⟩, fixed, bits, i, hi, j, hj, rfl⟩

theorem length_filter_above (a n : ℕ) : ((List.range n).filter (a < ·)).length = n - 1 - a := by
  induction n with
  | zero => simp
  | succ n ih =>
      rw [List.range_succ, List.filter_append, List.length_append, ih]
      by_cases above : a < n
      · simp [above]
        omega
      · simp [above]
        omega

/-- The points are as many as the faces say. -/
theorem facePoints_length (channels : 0 < n) (res : ℕ) :
    (facePoints n res : List (Array ℝ)).length =
      faceCount n * if n = 1 then res else res * res := by
  unfold facePoints faceCount
  split
  · rename_i one
    simp [one]
  · rename_i several
    have pairs : ((List.range n).map fun a => n - 1 - a).sum = n * (n - 1) / 2 := by
      change ∑ a ∈ range n, (n - 1 - a) = _
      rw [sum_range_reflect fun a => a, sum_range_id]
    have faces (a : ℕ) : (((List.range n).filter (a < ·)).flatMap fun b =>
        (List.range (2 ^ (n - 2))).flatMap fun fixed => (List.range res).flatMap fun i =>
          (List.range res).map fun j => (facePoint n res a b fixed i j : Array ℝ)).length =
        (n - 1 - a) * (2 ^ (n - 2) * (res * res)) := by
      simp [List.length_flatMap, length_filter_above]
    rw [List.length_flatMap]
    simp only [faces]
    rw [List.sum_map_mul_right, pairs, if_neg (by omega), mul_assoc]

end Points

/-- The corner of the device cube with the channels of a combination at full. -/
noncomputable def cornerValues (n comb : ℕ) : Array ℝ := (Array.range n).map (cornerValue comb)

theorem cornerValues_getElem? {n comb m : ℕ} (hm : m < n) :
    (cornerValues n comb)[m]? = some (cornerValue comb m) := by
  simp [cornerValues, hm]

theorem isFacePoint_cornerValues (n res comb : ℕ) : IsFacePoint n res (cornerValues n comb) where
  size := by simp [cornerValues]
  ends := by
    have all : {m ∈ range n | (cornerValues n comb)[m]? = some 0 ∨
        (cornerValues n comb)[m]? = some 1} = range n := by
      refine filter_true_of_mem fun m hm => ?_
      rw [cornerValues_getElem? (mem_range.mp hm)]
      rcases cornerValue_cases comb m with ⟨-, full⟩ | ⟨-, off⟩
      · exact .inr (congrArg some full)
      · exact .inl (congrArg some off)
    rw [all, card_range]
    omega
  grid := by
    intro x mem
    obtain ⟨m, -, rfl⟩ := Array.mem_map.mp mem
    rcases cornerValue_cases comb m with ⟨-, full⟩ | ⟨-, off⟩
    · exact .inr (.inl full)
    · exact .inl off

section Samples

/-- How many values a sweep has at a detail. -/
noncomputable def sweepValues (detail : ℝ) : ℕ := max (round (100 / detail)).toNat 3

/-- How many points a gamut samples. -/
noncomputable def sampleCount (n : ℕ) (detail : ℝ) : ℕ :=
  faceCount n * if n = 1 then sweepValues detail else sweepValues detail ^ 2

theorem two_le_sweepValues (detail : ℝ) : 2 ≤ sweepValues detail :=
  (by decide : 2 ≤ 3).trans (le_max_right _ 3)

theorem max_round_eq {detail : ℝ} (pos : 0 < detail) :
    Scalar.max (Scalar.round (100 / detail)) 3 = (sweepValues detail : ℝ) := by
  have nonneg : 0 ≤ 100 / detail := (div_pos (by norm_num) pos).le
  have whole : Scalar.round (100 / detail) = ((round (100 / detail)).toNat : ℝ) := by
    change (if 0 ≤ 100 / detail then ((⌊100 / detail + 0.5⌋ : ℤ) : ℝ) else _) = _
    have start : 0 ≤ ⌊100 / detail + 1 / 2⌋ := Int.floor_nonneg.mpr (by linarith)
    rw [if_pos nonneg, round_eq, ← Int.cast_natCast, Int.toNat_of_nonneg start]
    norm_num
  rw [whole, sweepValues, Nat.cast_max]
  rfl

theorem Model.gamutSamples_eq_ok_iff {m : Model ℝ} {detail : ℝ} {devs : List (Array ℝ)} :
    m.gamutSamples detail = .ok devs ↔
      0 < detail ∧ sampleCount m.channels detail ≤ maxGamutSamples ∧
        faceSamples m.channels (sweepValues detail) m.limit = devs := by
  rw [gamutSamples, Scalar.real_zero]
  change (if decide (0 < detail) = true then _ else _) = _ ↔ _
  by_cases pos : 0 < detail
  · have count : (Scalar.ofNat (faceCount m.channels) : ℝ) *
        (if m.channels = 1 then (sweepValues detail : ℝ)
          else (sweepValues detail : ℝ) * sweepValues detail) =
        (sampleCount m.channels detail : ℕ) := by
      rw [sampleCount, ← pow_two]
      split <;> push_cast <;> rfl
    have whole : (Scalar.trunc (sweepValues detail : ℝ)).toNat = sweepValues detail := by
      rw [← Int.cast_natCast, Scalar.real_trunc_intCast, Int.toNat_natCast]
    have bound : (Scalar.ofNat maxGamutSamples : ℝ) < (sampleCount m.channels detail : ℕ) ↔
        maxGamutSamples < sampleCount m.channels detail := Nat.cast_lt
    rw [if_pos (decide_eq_true pos), Scalar.real_ofNat, max_round_eq pos]
    dsimp only
    rw [count, whole]
    simp only [bound, pos, true_and]
    split
    · simp [not_le.mpr ‹_›]
    · simp [not_lt.mp ‹_›]
  · simp [pos]

variable {n res : ℕ}

theorem mem_faceSamples_iff (channels : 0 < n) (two : 2 ≤ res) {limit : Option ℝ}
    {dev : Array ℝ} :
    dev ∈ faceSamples n res limit ↔ ∃ p, IsFacePoint n res p ∧ clipToLimit p limit = dev := by
  simp only [faceSamples, List.mem_map, mem_facePoints_iff channels two]

theorem faceSamples_length (channels : 0 < n) (detail : ℝ) (limit : Option ℝ) :
    (faceSamples n (sweepValues detail) limit).length = sampleCount n detail := by
  rw [faceSamples, List.length_map, facePoints_length channels, sampleCount, pow_two]

variable {solver : Solver ℝ} {parts : Parts ℝ} {tuning : Tuning ℝ} {built m : Model ℝ}

theorem Model.channels_pos (m : Model ℝ) : 0 < m.channels :=
  List.length_pos_iff.mpr m.parts.inks.inks_ne_nil

/-- A gamut is sampled exactly when its detail is positive and the count not too large. The samples
are then as many as counted: the points of all faces, corners among them, within the ink limit. -/
theorem gamutSamples_faces (build : Model.build solver parts tuning = .ok built)
    (reached : Model.Reached solver built m) (detail : ℝ) :
    ((∃ devs, m.gamutSamples detail = .ok devs) ↔
      0 < detail ∧ sampleCount m.channels detail ≤ 4000000) ∧
    ∀ devs, m.gamutSamples detail = .ok devs →
      devs.length = sampleCount m.channels detail ∧
      (∀ dev ∈ devs, dev.size = m.channels ∧ (∀ d ∈ dev, d ∈ Set.Icc (0 : ℝ) 1) ∧
        IsWithinLimit m.toResponse dev ∧
        ∃ p, IsFacePoint m.channels (sweepValues detail) p ∧ clipToLimit p m.limit = dev) ∧
      (∀ p, IsFacePoint m.channels (sweepValues detail) p → clipToLimit p m.limit ∈ devs) ∧
      ∀ comb < 2 ^ m.channels, clipToLimit (cornerValues m.channels comb) m.limit ∈ devs := by
  have pos := Model.Reached.limit_pos build reached
  have two := two_le_sweepValues detail
  have faces {dev : Array ℝ} : dev ∈ faceSamples m.channels (sweepValues detail) m.limit ↔
      ∃ p, IsFacePoint m.channels (sweepValues detail) p ∧ clipToLimit p m.limit = dev :=
    mem_faceSamples_iff m.channels_pos two
  constructor
  · simp only [Model.gamutSamples_eq_ok_iff, exists_and_left, exists_eq', and_true]
    rfl
  · intro devs sampled
    obtain ⟨-, -, rfl⟩ := Model.gamutSamples_eq_ok_iff.mp sampled
    refine ⟨faceSamples_length m.channels_pos detail m.limit, fun dev mem => ?_,
      fun p face => faces.mpr ⟨p, face, rfl⟩,
      fun comb _ => faces.mpr ⟨_, isFacePoint_cornerValues _ _ comb, rfl⟩⟩
    obtain ⟨p, face, rfl⟩ := faces.mp mem
    refine ⟨(clipToLimit_size p m.limit).trans face.size, clipToLimit_mem_unit pos face.unit,
      fun l limit => ?_, p, face, rfl⟩
    rw [limit]
    exact sum_clipToLimit_le (pos l limit)

end Samples

/-- A colour display that cannot light all of its channels at full. -/
def colorDisplay {α : Type} [Scalar α] : Parts α where
  inks := ⟨2 ^ 5 + 2 ^ 6 + 2 ^ 7, true, by decide, by decide⟩
  limit := some 2
  order := 1
  shaped := false
  spectral := none
  instrument := none
  created := none
  bands := #[⟨#[0, 1, 2], #[], #[0, 41, 36, 77, 18, 59, 54, 95]⟩,
    ⟨#[0, 1, 2], #[], #[0, 21, 72, 93, 7, 28, 79, 100]⟩,
    ⟨#[0, 1, 2], #[], #[0, 2, 12, 14, 95, 97, 107, 109]⟩]

theorem colorDisplay_valid : (colorDisplay : Parts ℝ).Valid where
  inks := by decide
  order := by decide
  spectral := by decide
  bandCount := rfl
  bands := by
    intro b mem
    simp only [colorDisplay, List.mem_toArray, List.mem_cons, List.not_mem_nil, or_false] at mem
    rcases mem with rfl | rfl | rfl <;> exact ⟨rfl, rfl, rfl⟩
  limit := by
    intro l h
    cases h
    rw [Scalar.real_zero, Scalar.real_ofNat]
    exact two_pos

def colorModel {α : Type} [Scalar α] : Model α :=
  ⟨⟨colorDisplay, none⟩, .default, displayNeutrals ⟨colorDisplay, none⟩⟩

theorem colorModel_built :
    Model.build stillSolver colorDisplay .default = .ok (colorModel : Model ℝ) :=
  Model.build_eq_ok colorDisplay_valid rfl

theorem colorModel_limit : (colorModel : Model ℝ).limit = some 2 := by
  have constrains : (2 : ℝ) < ((3 : ℕ) : ℝ) := by norm_num
  change (some (2 : ℝ)).filter (fun l => decide (l < ((3 : ℕ) : ℝ))) = some 2
  exact Option.filter_eq_some_iff.mpr ⟨rfl, decide_eq_true constrains⟩

theorem sampleCount_colorModel : sampleCount (colorModel : Model ℝ).channels 50 = 54 := by
  have three : (colorModel : Model ℝ).channels = 3 := rfl
  have values : sweepValues 50 = 3 := by norm_num [sweepValues]
  rw [three, sampleCount, values]
  rfl

theorem gamutSamples_faces_colorModel :
    ∃ devs, (colorModel : Model ℝ).gamutSamples 50 = .ok devs ∧ devs.length = 54 ∧
      #[2 / 3, 2 / 3, 2 / 3] ∈ devs := by
  obtain ⟨accepted, samples⟩ := gamutSamples_faces colorModel_built .built 50
  rw [sampleCount_colorModel] at accepted samples
  obtain ⟨devs, sampled⟩ := accepted.mpr ⟨by norm_num, by decide⟩
  obtain ⟨length, -, -, corners⟩ := samples devs sampled
  refine ⟨devs, sampled, length, ?_⟩
  have white : cornerValues (colorModel : Model ℝ).channels 7 = #[1, 1, 1] := by
    change cornerValues 3 7 = _
    rw [cornerValues, show Array.range 3 = #[0, 1, 2] from rfl]
    simp [cornerValue, Nat.testBit]
  have clipped : clipToLimit #[1, 1, 1] (some (2 : ℝ)) = #[2 / 3, 2 / 3, 2 / 3] := by
    rw [clipToLimit_of_lt two_pos (by norm_num)]
    norm_num
  have mem := corners 7 (by decide)
  rwa [white, colorModel_limit, clipped] at mem

end InkModel
