import InkModel.Proofs.Profile.Cusps

/-! # What a surface keeps

A surface takes up reports in any order. It keeps all surface points, and white and black as they
came last. Of the cusps it keeps those of the last list only: what was added after the last
beginning and before the first end from there on. Its bounds are the smallest box around its points.
-/

namespace InkModel

variable {α : Type}

namespace GamutEvent

def surfacePoint? : GamutEvent α → Option (Lab α)
  | .expand p => some p
  | _ => none

def cusp? : GamutEvent α → Option (Lab α)
  | .addCusp p => some p
  | _ => none

/-- White, black and black of the black ink. -/
def neutrals? : GamutEvent α → Option (Lab α × Lab α × Lab α)
  | .neutrals w b k => some (w, b, k)
  | _ => none

end GamutEvent

open GamutEvent

def lastNeutrals? (events : List (GamutEvent α)) : Option (Lab α × Lab α × Lab α) :=
  (events.filterMap neutrals?).getLast?

/-- The last list of cusps among reports: whether it is still open, and what belongs to it. -/
inductive LastCusps : List (GamutEvent α) → Bool → List (Lab α) → Prop
  /-- There is no list. -/
  | unbegun {events : List (GamutEvent α)} (unbegun : .beginCusps ∉ events) :
      LastCusps events false []
  /-- The list has begun and not ended. -/
  | begun (before : List (GamutEvent α)) {during : List (GamutEvent α)}
      (last : .beginCusps ∉ during) (unended : .endCusps ∉ during) :
      LastCusps (before ++ .beginCusps :: during) true (during.filterMap cusp?)
  /-- The list has ended. What is added later does not belong to it. -/
  | ended (before : List (GamutEvent α)) {during after : List (GamutEvent α)}
      (last : .beginCusps ∉ during) (unended : .endCusps ∉ during) (still : .beginCusps ∉ after) :
      LastCusps (before ++ .beginCusps :: (during ++ .endCusps :: after)) false
        (during.filterMap cusp?)

theorem exists_lastCusps (events : List (GamutEvent α)) :
    ∃ inCusps cusps, LastCusps events inCusps cusps := by
  by_cases begun : .beginCusps ∈ events
  · -- the last beginning is the first one of the reversed reports
    obtain ⟨later, earlier, reversed, last⟩ :=
      List.eq_append_cons_of_mem (List.mem_reverse.mpr begun)
    obtain rfl : events = earlier.reverse ++ .beginCusps :: later.reverse := by
      rw [← List.reverse_reverse events, reversed]
      simp
    rw [← List.mem_reverse] at last
    by_cases ended : .endCusps ∈ later.reverse
    · obtain ⟨during, after, split, unended⟩ := List.eq_append_cons_of_mem ended
      rw [split] at last ⊢
      simp only [List.mem_append, List.mem_cons, not_or] at last
      exact ⟨_, _, .ended _ last.1 unended last.2.2⟩
    · exact ⟨_, _, .begun _ last ended⟩
  · exact ⟨_, _, .unbegun begun⟩

namespace GamutSurface

variable (s : GamutSurface α) (e : GamutEvent α) (events : List (GamutEvent α))

theorem receiveAll_cons : s.receiveAll (e :: events) = (s.receive e).receiveAll events := rfl

theorem receiveAll_append (later : List (GamutEvent α)) :
    s.receiveAll (events ++ later) = (s.receiveAll events).receiveAll later :=
  List.foldl_append

theorem receive_points :
    (s.receive e).points.toList = s.points.toList ++ e.surfacePoint?.toList := by
  cases e with
  | addCusp p => by_cases collects : s.inCusps <;> simp [receive, collects, surfacePoint?]
  | _ => simp [receive, surfacePoint?]

theorem receive_neutrals :
    (s.receive e).white = (e.neutrals?.map (·.1)).or s.white ∧
      (s.receive e).black = (e.neutrals?.map (·.2.1)).or s.black ∧
      (s.receive e).inkBlack = (e.neutrals?.map (·.2.2)).or s.inkBlack := by
  cases e with
  | addCusp p => by_cases collects : s.inCusps <;> simp [receive, collects, neutrals?]
  | _ => simp [receive, neutrals?]

theorem receiveAll_points :
    (s.receiveAll events).points.toList = s.points.toList ++ events.filterMap surfacePoint? := by
  induction events generalizing s with
  | nil => simp [receiveAll]
  | cons e events ih =>
      rw [receiveAll_cons, ih, receive_points, List.append_assoc, List.filterMap_cons]
      cases e.surfacePoint? <;> rfl

/-- What a report of the neutrals sets, and every other report leaves, is as it was set last. -/
theorem receiveAll_neutrals {β : Type} (field : GamutSurface α → Option β)
    (part : Lab α × Lab α × Lab α → β)
    (step : ∀ s e, field (receive s e) = (e.neutrals?.map part).or (field s)) :
    field (s.receiveAll events) = ((lastNeutrals? events).map part).or (field s) := by
  induction events generalizing s with
  | nil => rfl
  | cons e events ih =>
      rw [receiveAll_cons, ih, step, lastNeutrals?, lastNeutrals?, List.filterMap_cons]
      cases e.neutrals? with
      | none => rfl
      | some n => cases h : (events.filterMap neutrals?).getLast? <;> simp [List.getLast?_cons, h]

/-! Outside a list of cusps nothing is added, and inside a list every cusp. -/

section Cusps

variable {s e events}

theorem receive_of_closed (closed : s.inCusps = false) (other : .beginCusps ≠ e) :
    (s.receive e).inCusps = false ∧ (s.receive e).cusps = s.cusps := by
  cases e with
  | beginCusps => contradiction
  | _ => simp [receive, closed]

theorem receive_of_open (collects : s.inCusps = true) (noBegin : .beginCusps ≠ e)
    (noEnd : .endCusps ≠ e) : (s.receive e).inCusps = true ∧
      (s.receive e).cusps.toList = s.cusps.toList ++ e.cusp?.toList := by
  cases e with
  | beginCusps | endCusps => contradiction
  | _ => simp [receive, collects, cusp?]

theorem receiveAll_of_closed (noBegin : .beginCusps ∉ events) (closed : s.inCusps = false) :
    (s.receiveAll events).inCusps = false ∧ (s.receiveAll events).cusps = s.cusps := by
  induction events generalizing s with
  | nil => exact ⟨closed, rfl⟩
  | cons e events ih =>
      obtain ⟨other, noBegin⟩ := List.ne_and_not_mem_of_not_mem_cons noBegin
      obtain ⟨still, kept⟩ := receive_of_closed closed other
      rw [← kept]
      exact ih noBegin still

theorem receiveAll_of_open (noBegin : .beginCusps ∉ events) (noEnd : .endCusps ∉ events)
    (collects : s.inCusps = true) : (s.receiveAll events).inCusps = true ∧
      (s.receiveAll events).cusps.toList = s.cusps.toList ++ events.filterMap cusp? := by
  induction events generalizing s with
  | nil => exact ⟨collects, by simp [receiveAll]⟩
  | cons e events ih =>
      obtain ⟨notBegin, noBegin⟩ := List.ne_and_not_mem_of_not_mem_cons noBegin
      obtain ⟨notEnd, noEnd⟩ := List.ne_and_not_mem_of_not_mem_cons noEnd
      obtain ⟨still, added⟩ := receive_of_open collects notBegin notEnd
      obtain ⟨inside, cusps⟩ := ih noBegin noEnd still
      refine ⟨inside, cusps.trans ?_⟩
      rw [added, List.append_assoc, List.filterMap_cons]
      cases e.cusp? <;> rfl

theorem receiveAll_begun (s : GamutSurface α) {during : List (GamutEvent α)}
    (last : .beginCusps ∉ during) (unended : .endCusps ∉ during) :
    (s.receiveAll (.beginCusps :: during)).inCusps = true ∧
      (s.receiveAll (.beginCusps :: during)).cusps.toList = during.filterMap cusp? :=
  receiveAll_of_open (s := s.receive .beginCusps) last unended rfl

theorem receiveAll_ended (s : GamutSurface α) {after : List (GamutEvent α)}
    (still : .beginCusps ∉ after) :
    (s.receiveAll (.endCusps :: after)).inCusps = false ∧
      (s.receiveAll (.endCusps :: after)).cusps = s.cusps :=
  receiveAll_of_closed (s := s.receive .endCusps) still rfl

end Cusps

end GamutSurface

open GamutSurface

section LastCusps

variable {events : List (GamutEvent α)} {inCusps : Bool} {cusps : List (Lab α)}

theorem LastCusps.received (own : LastCusps events inCusps cusps) :
    (receiveAll {} events).inCusps = inCusps ∧ (receiveAll {} events).cusps.toList = cusps := by
  cases own with
  | unbegun unbegun =>
      obtain ⟨closed, none⟩ := receiveAll_of_closed (s := {}) unbegun rfl
      exact ⟨closed, congrArg Array.toList none⟩
  | begun before last unended =>
      rw [receiveAll_append]
      exact receiveAll_begun _ last unended
  | ended before last unended still =>
      rw [receiveAll_append, ← List.cons_append, receiveAll_append]
      obtain ⟨-, collected⟩ := receiveAll_begun (receiveAll {} before) last unended
      obtain ⟨closed, kept⟩ := receiveAll_ended _ still
      exact ⟨closed, (congrArg Array.toList kept).trans collected⟩

/-- There is just one last list of cusps, the one that a surface has taken up. -/
theorem lastCusps_iff : LastCusps events inCusps cusps ↔
    (receiveAll {} events).inCusps = inCusps ∧ (receiveAll {} events).cusps.toList = cusps := by
  constructor
  · exact LastCusps.received
  · rintro ⟨rfl, rfl⟩
    obtain ⟨inCusps, cusps, own⟩ := exists_lastCusps events
    obtain ⟨rfl, rfl⟩ := own.received
    exact own

end LastCusps

/-! Boxes around points. -/

def Lab.axes : List (Lab α → α) := [Lab.l, Lab.a, Lab.b]

theorem Lab.forall_axes {P : (Lab α → α) → Prop} :
    (∀ axis ∈ Lab.axes, P axis) ↔ P Lab.l ∧ P Lab.a ∧ P Lab.b := by
  simp [Lab.axes]

theorem Lab.ext_axes {p q : Lab α} (same : ∀ axis ∈ Lab.axes, axis p = axis q) : p = q := by
  obtain ⟨l, a, b⟩ := p
  obtain ⟨l', a', b'⟩ := q
  simpa [Lab.forall_axes] using same

/-- The smallest box around points: on every axis its ends are coordinates of points, and no point
is beyond them. -/
def IsBox (points : List (Lab ℝ)) (lower upper : Lab ℝ) : Prop :=
  ∀ axis ∈ Lab.axes, IsLeast {x | ∃ p ∈ points, axis p = x} (axis lower) ∧
    IsGreatest {x | ∃ p ∈ points, axis p = x} (axis upper)

namespace IsBox

variable {points : List (Lab ℝ)} {lower upper lower' upper' : Lab ℝ}

theorem nonempty (box : IsBox points lower upper) : points ≠ [] := by
  obtain ⟨⟨⟨p, mem, -⟩, -⟩, -⟩ := (Lab.forall_axes.mp box).1
  exact List.ne_nil_of_mem mem

theorem unique (box : IsBox points lower upper) (box' : IsBox points lower' upper') :
    lower = lower' ∧ upper = upper' :=
  ⟨Lab.ext_axes fun axis mem => (box axis mem).1.unique (box' axis mem).1,
    Lab.ext_axes fun axis mem => (box axis mem).2.unique (box' axis mem).2⟩

end IsBox

namespace GamutSurface

section Axes

variable [Scalar α]

theorem lowerCorner_axis : ∀ axis ∈ Lab.axes, ∀ p q : Lab α,
    axis (lowerCorner p q) = Scalar.min (axis p) (axis q) :=
  Lab.forall_axes.mpr ⟨fun _ _ => rfl, fun _ _ => rfl, fun _ _ => rfl⟩

theorem upperCorner_axis : ∀ axis ∈ Lab.axes, ∀ p q : Lab α,
    axis (upperCorner p q) = Scalar.max (axis p) (axis q) :=
  Lab.forall_axes.mpr ⟨fun _ _ => rfl, fun _ _ => rfl, fun _ _ => rfl⟩

omit [Scalar α] in
theorem foldl_axis {axis : Lab α → α} {corner : Lab α → Lab α → Lab α} {pick : α → α → α}
    (own : ∀ p q, axis (corner p q) = pick (axis p) (axis q)) (points : List (Lab α))
    (first : Lab α) :
    axis (points.foldl corner first) = (points.map axis).foldl pick (axis first) := by
  rw [List.foldl_map]
  exact (List.foldl_hom axis fun p q => (own p q).symm).symm

theorem bounds?_eq_none_iff {s : GamutSurface α} : s.bounds? = none ↔ s.points = #[] := by
  simp [bounds?]

end Axes

variable {s : GamutSurface ℝ} {lower upper : Lab ℝ}

theorem isBox_of_bounds? (found : s.bounds? = some (lower, upper)) :
    IsBox s.points.toList lower upper := by
  simp only [bounds?, Option.map_eq_some_iff, ← Array.foldl_toList, Prod.mk.injEq] at found
  obtain ⟨first, begins, rfl, rfl⟩ := found
  have own : first ∈ s.points.toList := by
    simpa using Array.mem_of_getElem? begins
  intro axis mem
  -- both folds begin with the first point, which they meet again
  have values : {x | x ∈ axis first :: s.points.toList.map axis} =
      {x | ∃ p ∈ s.points.toList, axis p = x} := by
    ext x
    simp only [List.mem_cons, List.mem_map, Set.mem_ofPred_eq]
    exact or_iff_right_of_imp fun same => ⟨first, own, same.symm⟩
  rw [foldl_axis (lowerCorner_axis axis mem), foldl_axis (upperCorner_axis axis mem), ← values]
  exact ⟨foldl_min_isLeast _ _, foldl_max_isGreatest _ _⟩

theorem bounds?_eq_some_iff :
    s.bounds? = some (lower, upper) ↔ IsBox s.points.toList lower upper := by
  constructor
  · exact isBox_of_bounds?
  · intro box
    cases found : s.bounds? with
    | none =>
        have empty : s.points.toList = [] := by simpa using bounds?_eq_none_iff.mp found
        exact absurd empty box.nonempty
    | some ends =>
        obtain ⟨rfl, rfl⟩ := box.unique (isBox_of_bounds? found)
        rfl

end GamutSurface

/-- What a surface has kept of reports. -/
structure GamutSurface.Keeps (s : GamutSurface α) (events : List (GamutEvent α)) : Prop where
  points : s.points.toList = events.filterMap surfacePoint?
  /-- The cusps are those of the last list, and cusps are awaited as long as it is open. -/
  cusps : ∀ inCusps cusps,
    LastCusps events inCusps cusps ↔ s.inCusps = inCusps ∧ s.cusps.toList = cusps
  white : s.white = (lastNeutrals? events).map fun n => n.1
  black : s.black = (lastNeutrals? events).map fun n => n.2.1
  inkBlack : s.inkBlack = (lastNeutrals? events).map fun n => n.2.2

theorem receiveAll_keeps (events : List (GamutEvent α)) : (receiveAll {} events).Keeps events where
  points := receiveAll_points {} events
  cusps _ _ := lastCusps_iff
  white := by
    rw [receiveAll_neutrals {} events white _ fun s e => (receive_neutrals s e).1, Option.or_none]
  black := by
    rw [receiveAll_neutrals {} events black _ fun s e => (receive_neutrals s e).2.1, Option.or_none]
  inkBlack := by
    rw [receiveAll_neutrals {} events inkBlack _ fun s e => (receive_neutrals s e).2.2,
      Option.or_none]

section Gamut

variable [Scalar α] (m : Model α) (samples cusps : List (Array α))

theorem reports_lastCusps : LastCusps (m.reports samples cusps) false (cusps.map m.lookupLab) := by
  have added : (cusps.map fun dev => addCusp (m.lookupLab dev)).filterMap cusp? =
      cusps.map m.lookupLab := by
    simp [List.filterMap_map, Function.comp_def, cusp?]
  rw [← added, Model.reports, List.append_assoc, List.cons_append]
  exact .ended _ (by simp) (by simp) (by simp)

theorem reports_surfacePoints :
    (m.reports samples cusps).filterMap surfacePoint? = samples.map m.lookupLab := by
  have points : (samples.map fun dev => expand (m.lookupLab dev)).filterMap surfacePoint? =
      samples.map m.lookupLab := by
    simp [List.filterMap_map, Function.comp_def, surfacePoint?]
  have none : (cusps.map fun dev => addCusp (m.lookupLab dev)).filterMap surfacePoint? = [] := by
    simp [surfacePoint?]
  simp [Model.reports, List.filterMap_cons, points, none, surfacePoint?]

theorem reports_lastNeutrals? : lastNeutrals? (m.reports samples cusps) =
    some (m.neutrals.white.xyz.toLab, m.neutrals.black.xyz.toLab,
      m.neutrals.inkBlack.xyz.toLab) := by
  rw [Model.reports, lastNeutrals?, List.filterMap_append]
  exact List.getLast?_concat

/-- A surface of a model has the colours of all samples and of all corners, its cusps are closed,
and it has the white and black of the model. -/
theorem Model.surface_complete {detail : α} {devs : List (Array α)}
    (sampled : m.gamutSamples detail = .ok devs) :
    ∃ s, m.surface detail = .ok s ∧ s.points.toList = devs.map m.lookupLab ∧
      s.inCusps = false ∧ s.cusps.toList = (corners m.channels m.limit).map m.lookupLab ∧
      s.white = some m.neutrals.white.xyz.toLab ∧ s.black = some m.neutrals.black.xyz.toLab ∧
      s.inkBlack = some m.neutrals.inkBlack.xyz.toLab := by
  have told : m.gamut detail = .ok (m.reports devs (corners m.channels m.limit)) := by
    rw [gamut, sampled]
    rfl
  have kept := receiveAll_keeps (m.reports devs (corners m.channels m.limit))
  obtain ⟨closed, cusps⟩ := (kept.cusps _ _).mp (reports_lastCusps m devs _)
  have neutrals := reports_lastNeutrals? m devs (corners m.channels m.limit)
  refine ⟨_, by rw [surface_eq, told]; rfl, ?_, closed, cusps, ?_, ?_, ?_⟩
  · rw [kept.points, reports_surfacePoints]
  · rw [kept.white, neutrals]
    rfl
  · rw [kept.black, neutrals]
    rfl
  · rw [kept.inkBlack, neutrals]
    rfl

end Gamut

/-- Whatever a surface is told, in any order: it has all surface points in their order, the last
list of cusps up to its first end, and the last white and black. It has bounds unless there is no
point, and they are the smallest box around the points. -/
theorem surface_keeps_reports :
    (∀ {α : Type} [Scalar α] (events : List (GamutEvent α)),
      (receiveAll {} events).Keeps events ∧
        ((receiveAll {} events).bounds? = none ↔ (receiveAll {} events).points = #[])) ∧
    ∀ (events : List (GamutEvent ℝ)) (lower upper : Lab ℝ),
      (receiveAll {} events).bounds? = some (lower, upper) ↔
        IsBox (events.filterMap surfacePoint?) lower upper := by
  constructor
  · intro α _ events
    exact ⟨receiveAll_keeps events, bounds?_eq_none_iff⟩
  · intro events lower upper
    rw [bounds?_eq_some_iff, (receiveAll_keeps events).points]

def wholeLab (l a b : ℕ) : Lab ℝ := ⟨l, a, b⟩

/-- Two lists of cusps, with cusps before, between and after them and points among them. -/
def strayReports : List (GamutEvent ℝ) :=
  [.addCusp (wholeLab 9 0 0), .beginCusps, .addCusp (wholeLab 1 0 0), .expand (wholeLab 1 2 3),
    .endCusps, .addCusp (wholeLab 8 0 0),
    .neutrals (wholeLab 90 0 0) (wholeLab 9 0 0) (wholeLab 9 0 0)] ++
    .beginCusps :: ([.addCusp (wholeLab 2 0 0), .expand (wholeLab 5 0 4),
      .addCusp (wholeLab 3 0 0)] ++ .endCusps :: [.addCusp (wholeLab 4 0 0),
      .neutrals (wholeLab 95 0 0) (wholeLab 10 0 0) (wholeLab 20 0 0), .endCusps])

theorem surface_keeps_reports_strayReports :
    (receiveAll {} strayReports).points.toList = [wholeLab 1 2 3, wholeLab 5 0 4] ∧
      (receiveAll {} strayReports).cusps.toList = [wholeLab 2 0 0, wholeLab 3 0 0] ∧
      (receiveAll {} strayReports).white = some (wholeLab 95 0 0) ∧
      (receiveAll {} strayReports).bounds? = some (wholeLab 1 0 3, wholeLab 5 2 4) := by
  obtain ⟨kept, bounded⟩ := surface_keeps_reports
  obtain ⟨⟨points, cusps, white, -, -⟩, -⟩ := kept strayReports
  refine ⟨points, ?_, white, (bounded _ _ _).mpr ?_⟩
  · exact ((cusps false _).mp (.ended _ (by simp) (by simp) (by simp))).2
  · change IsBox [wholeLab 1 2 3, wholeLab 5 0 4] _ _
    simp [wholeLab, IsBox, Lab.forall_axes, IsLeast, IsGreatest, lowerBounds, upperBounds, or_imp,
      forall_and]
    norm_num

end InkModel
