import InkModel.Proofs.Fit.Start

/-! # The course of a fit

A band is fitted by one stage minimization after another, pass by pass. To follow the error on the
way changes none of them. A run that may exit early makes the minimizations of the full run, up to
the end of the first pass that gains too little.
-/

namespace InkModel

variable {α : Type}

/-- A stage minimization in the course of a fit. -/
structure StageCall (α : Type) where
  problem : BandProblem α
  stage : Stage
  tolerance : α
  /-- The band that it starts from. -/
  start : Band α

variable [Scalar α]

def StageCall.answer (solver : Solver α) (call : StageCall α) :
    Except (MinimizeError α) (Band α × Minimum α) :=
  call.problem.minimize solver call.stage call.start call.tolerance

/-- Minimizations one after another, each from where the last one ended, up to one that fails. -/
inductive Course (solver : Solver α) :
    Band α → List (StageCall α) → Except (ModelError α) (Band α) → Prop
  | done (b : Band α) : Course solver b [] (.ok b)
  | fails {call : StageCall α} {e : MinimizeError α} (answer : call.answer solver = .error e) :
      Course solver call.start [call] (.error (.minimize e))
  | goesOn {call : StageCall α} {b : Band α} {m : Minimum α} {calls : List (StageCall α)}
      {result : Except (ModelError α) (Band α)} (answer : call.answer solver = .ok (b, m))
      (rest : Course solver b calls result) : Course solver call.start (call :: calls) result

section Calls

variable (solver : Solver α) (pb : BandProblem α) (earlyExit : Option α)

/-- The minimizations of stages in turn, up to one that fails. -/
def stageCalls (tolerance : α) (b : Band α) : List Stage → List (StageCall α)
  | [] => []
  | stage :: rest =>
    ⟨pb, stage, tolerance, b⟩ ::
      match pb.minimize solver stage b tolerance with
      | .error _ => []
      | .ok (b', _) => stageCalls tolerance b' rest

/-- The minimizations of at most `passes` passes. -/
def passCalls :
    (passes : ℕ) → (tolerance : α) → (last : Option α) → Band α → List (StageCall α)
  | 0, _, _, _ => []
  | passes + 1, tolerance, last, b =>
    stageCalls solver pb tolerance b (stagesOf pb.layout) ++
      match runStages solver pb tolerance b (stagesOf pb.layout) with
      | .error _ => []
      | .ok b' =>
        let tolerance' := tolerance * pb.tuning.toleranceFactor
        match last with
        | none => passCalls passes tolerance' none b'
        | some before =>
          let e := pb.error b'
          if exitsEarly earlyExit before e then [] else passCalls passes tolerance' (some e) b'

/-- Where the first pass of a band begins. -/
def bandStart (b : Band α) (source : Option (Band α)) : Band α :=
  match source with
  | some src => warmStart pb b src
  | none => b

/-- The error at the start, when it is followed from pass to pass. -/
def startError (opts : FitOptions α) (start : Band α) : Option α :=
  if opts.verbose || opts.earlyExit.isSome then some (pb.error start) else none

/-- The minimizations of the fit of one band. -/
def bandCalls (opts : FitOptions α) (passes : ℕ) (b : Band α) (source : Option (Band α)) :
    List (StageCall α) :=
  let start := bandStart pb b source
  passCalls solver pb opts.earlyExit passes pb.tuning.firstTolerance (startError pb opts start)
    start

/-- The minimizations of bands in turn, up to one that fails. -/
def turnCalls (opts : FitOptions α) (problem : ℕ → BandProblem α) (bands : Array (Band α)) :
    List Turn → List (StageCall α)
  | [] => []
  | turn :: rest =>
    let blank : Band α := ⟨#[], #[], #[]⟩
    let b := bands.getD turn.band blank
    let source := turn.source.map fun s => bands.getD s blank
    bandCalls solver (problem turn.band) opts opts.quality.passes b source ++
      match fitBand solver (problem turn.band) opts opts.quality.passes b source with
      | .error _ => []
      | .ok fitted => turnCalls opts problem (bands.setIfInBounds turn.band fitted.band) rest

end Calls

section Run

variable {solver : Solver α} {pb : BandProblem α} {earlyExit : Option α}

theorem mem_stageCalls {call : StageCall α} {tolerance : α} {b : Band α} {stages : List Stage}
    (mem : call ∈ stageCalls solver pb tolerance b stages) :
    call.problem = pb ∧ call.stage ∈ stages := by
  induction stages generalizing b with
  | nil => cases mem
  | cons stage stages ih =>
      rw [stageCalls] at mem
      rcases List.mem_cons.mp mem with rfl | later
      · exact ⟨rfl, List.mem_cons_self⟩
      · split at later
        · cases later
        · obtain ⟨same, own⟩ := ih later
          exact ⟨same, List.mem_cons_of_mem _ own⟩

theorem mem_passCalls {call : StageCall α} {last : Option α} {passes : ℕ} {tolerance : α}
    {b : Band α} (mem : call ∈ passCalls solver pb earlyExit passes tolerance last b) :
    call.problem = pb ∧ call.stage ∈ stagesOf pb.layout := by
  induction passes generalizing tolerance last b with
  | zero => cases mem
  | succ passes ih =>
      rw [passCalls] at mem
      rcases List.mem_append.mp mem with first | later
      · exact mem_stageCalls first
      · split at later
        · cases later
        · cases last with
          | none => exact ih later
          | some before =>
              dsimp only at later
              split at later
              · cases later
              · exact ih later

theorem Course.append {b b' : Band α} {calls calls' : List (StageCall α)}
    {result : Except (ModelError α) (Band α)} (h : Course solver b calls (.ok b'))
    (h' : Course solver b' calls' result) : Course solver b (calls ++ calls') result := by
  generalize ended : (Except.ok b' : Except (ModelError α) (Band α)) = r at h
  induction h with
  | done b =>
      cases ended
      exact h'
  | fails answer => cases ended
  | goesOn answer rest ih => exact .goesOn answer (ih ended)

variable (solver pb) in
theorem runStages_course (tolerance : α) (b : Band α) (stages : List Stage) :
    Course solver b (stageCalls solver pb tolerance b stages)
      (runStages solver pb tolerance b stages) := by
  induction stages generalizing b with
  | nil => exact .done b
  | cons stage stages ih =>
      let call : StageCall α := ⟨pb, stage, tolerance, b⟩
      rw [stageCalls, runStages]
      cases answer : pb.minimize solver stage b tolerance with
      | error e =>
          have fails : call.answer solver = .error e := answer
          exact .fails fails
      | ok m =>
          have goesOn : call.answer solver = .ok m := answer
          exact .goesOn goesOn (ih m.1)

variable (solver pb earlyExit) in
theorem runPasses_course (passes : ℕ) (tolerance : α) (last : Option α) (b : Band α) :
    Course solver b (passCalls solver pb earlyExit passes tolerance last b)
      ((runPasses solver pb earlyExit passes tolerance last b).map FittedBand.band) := by
  induction passes generalizing tolerance last b with
  | zero => exact .done b
  | succ passes ih =>
      have first := runStages_course solver pb tolerance b (stagesOf pb.layout)
      rw [passCalls, runPasses]
      cases ran : runStages solver pb tolerance b (stagesOf pb.layout) with
      | error e =>
          rw [ran] at first
          rw [List.append_nil]
          exact first
      | ok b' =>
          rw [ran] at first
          refine first.append ?_
          cases last with
          | none => exact ih _ none b'
          | some before =>
              dsimp only
              split
              · exact .done b'
              · exact ih _ _ b'

/-- An error that is followed is the one of the band. -/
def Follows (pb : BandProblem α) (last : Option α) (b : Band α) : Prop :=
  ∀ e ∈ last, e = pb.error b

theorem follows_startError (opts : FitOptions α) (b : Band α) :
    Follows pb (startError pb opts b) b := by
  intro e mem
  unfold startError at mem
  split at mem
  · exact (Option.some.inj mem).symm
  · cases mem

/-- The error of a run is the error of the band that it ends with. -/
theorem runPasses_error {passes : ℕ} {tolerance : α} {last : Option α} {b : Band α}
    (follows : Follows pb last b) {fitted : FittedBand α}
    (ran : runPasses solver pb earlyExit passes tolerance last b = .ok fitted) :
    fitted.error = pb.error fitted.band := by
  induction passes generalizing tolerance last b with
  | zero =>
      cases ran
      cases last with
      | none => rfl
      | some e => exact follows e rfl
  | succ passes ih =>
      rw [runPasses] at ran
      cases stages : runStages solver pb tolerance b (stagesOf pb.layout) with
      | error e =>
          rw [stages] at ran
          cases ran
      | ok b' =>
          rw [stages] at ran
          cases last with
          | none => exact ih (fun e mem => by cases mem) ran
          | some before =>
              dsimp only at ran
              split at ran
              · cases ran
                rfl
              · exact ih (fun e mem => (Option.some.inj mem).symm) ran

/-- A full run is the same whether its error is followed or not. -/
theorem runPasses_untracked (passes : ℕ) (tolerance : α) {last : Option α} {b : Band α}
    (follows : Follows pb last b) :
    runPasses solver pb none passes tolerance last b =
        runPasses solver pb none passes tolerance none b ∧
      passCalls solver pb none passes tolerance last b =
        passCalls solver pb none passes tolerance none b := by
  cases last with
  | none => exact ⟨rfl, rfl⟩
  | some before =>
      induction passes generalizing tolerance b before with
      | zero =>
          rw [follows before rfl]
          exact ⟨rfl, rfl⟩
      | succ passes ih =>
          rw [runPasses, runPasses, passCalls, passCalls]
          cases runStages solver pb tolerance b (stagesOf pb.layout) with
          | error e => exact ⟨rfl, rfl⟩
          | ok b' =>
              obtain ⟨same, calls⟩ := ih (tolerance * pb.tuning.toleranceFactor) (b := b')
                (pb.error b') fun e mem => (Option.some.inj mem).symm
              exact ⟨same, congrArg _ calls⟩

section Cut

variable {eps tolerance : α} {b b' : Band α}

/-- A full run from its second pass on. -/
theorem runPasses_succ (ran : runStages solver pb tolerance b (stagesOf pb.layout) = .ok b')
    (k : ℕ) :
    runPasses solver pb none (k + 1) tolerance none b =
        runPasses solver pb none k (tolerance * pb.tuning.toleranceFactor) none b' ∧
      passCalls solver pb none (k + 1) tolerance none b =
        stageCalls solver pb tolerance b (stagesOf pb.layout) ++
          passCalls solver pb none k (tolerance * pb.tuning.toleranceFactor) none b' := by
  rw [runPasses, passCalls, ran]
  exact ⟨rfl, rfl⟩

/-- Whether the last of `k` passes of a full run gains at most the share `eps` of the error
before it. -/
def PassesStall (solver : Solver α) (pb : BandProblem α) (eps tolerance : α) (b : Band α)
    (k : ℕ) : Prop :=
  ∃ before after, runPasses solver pb none (k - 1) tolerance none b = .ok before ∧
    runPasses solver pb none k tolerance none b = .ok after ∧
    before.error - after.error ≤ eps * before.error

theorem passesStall_one_iff
    (ran : runStages solver pb tolerance b (stagesOf pb.layout) = .ok b') :
    PassesStall solver pb eps tolerance b 1 ↔
      exitsEarly (some eps) (pb.error b) (pb.error b') = true := by
  have first : runPasses solver pb none 1 tolerance none b = .ok ⟨b', pb.error b'⟩ :=
    (runPasses_succ ran 0).1
  rw [PassesStall, first, exitsEarly, decide_eq_true_eq]
  constructor
  · rintro ⟨before, after, start, ends, gain⟩
    cases start
    cases ends
    exact gain
  · exact fun gain => ⟨_, _, rfl, rfl, gain⟩

theorem passesStall_succ_iff
    (ran : runStages solver pb tolerance b (stagesOf pb.layout) = .ok b') (k : ℕ) :
    PassesStall solver pb eps tolerance b (k + 2) ↔
      PassesStall solver pb eps (tolerance * pb.tuning.toleranceFactor) b' (k + 1) := by
  change (∃ before after, runPasses solver pb none (k + 1) tolerance none b = .ok before ∧
    runPasses solver pb none (k + 2) tolerance none b = .ok after ∧ _) ↔ _
  rw [(runPasses_succ ran k).1, (runPasses_succ ran (k + 1)).1]
  rfl

variable (solver pb eps) in
/-- A run that may exit early is a full run with fewer passes: it ends with the first pass that
gains too little, if there is one. -/
theorem runPasses_cut (passes : ℕ) (tolerance : α) (b : Band α) :
    ∃ k ≤ passes,
      runPasses solver pb (some eps) passes tolerance (some (pb.error b)) b =
        runPasses solver pb none k tolerance none b ∧
      passCalls solver pb (some eps) passes tolerance (some (pb.error b)) b =
        passCalls solver pb none k tolerance none b ∧
      passCalls solver pb none k tolerance none b <+:
        passCalls solver pb none passes tolerance none b ∧
      (∀ j < k, 0 < j → ¬PassesStall solver pb eps tolerance b j) ∧
      (k < passes → 0 < k ∧ PassesStall solver pb eps tolerance b k) := by
  induction passes generalizing tolerance b with
  | zero => exact ⟨0, le_rfl, rfl, rfl, List.prefix_rfl, nofun, nofun⟩
  | succ passes ih =>
      cases ran : runStages solver pb tolerance b (stagesOf pb.layout) with
      | error e =>
          have full (j : ℕ) : runPasses solver pb none (j + 1) tolerance none b = .error e := by
            rw [runPasses, ran]
          refine ⟨passes + 1, le_rfl, ?_, ?_, List.prefix_rfl, ?_, fun less => absurd less
            (lt_irrefl _)⟩
          · rw [full, runPasses, ran]
          · rw [passCalls, passCalls, ran]
          · rintro j - positive ⟨-, after, -, ends, -⟩
            obtain ⟨i, rfl⟩ := Nat.exists_eq_add_one.mpr positive
            rw [full] at ends
            cases ends
      | ok b' =>
          have succ := runPasses_succ ran
          rw [runPasses, passCalls, ran]
          dsimp only
          by_cases exits : exitsEarly (some eps) (pb.error b) (pb.error b') = true
          · rw [if_pos exits, if_pos exits]
            refine ⟨1, Nat.le_add_left 1 passes, (succ 0).1.symm, (succ 0).2.symm, ?_, by omega,
              fun _ => ⟨one_pos, (passesStall_one_iff ran).mpr exits⟩⟩
            rw [(succ 0).2, (succ passes).2]
            exact (List.prefix_append_right_inj _).mpr (List.nil_prefix)
          · rw [if_neg exits, if_neg exits]
            obtain ⟨k, within, same, calls, cut, before, last⟩ :=
              ih (tolerance * pb.tuning.toleranceFactor) b'
            refine ⟨k + 1, Nat.succ_le_succ within, same.trans (succ k).1.symm, ?_, ?_, ?_, ?_⟩
            · rw [calls, (succ k).2]
            · rw [(succ k).2, (succ passes).2]
              exact (List.prefix_append_right_inj _).mpr cut
            · intro j less positive
              match j with
              | 1 => exact mt (passesStall_one_iff ran).mp exits
              | j + 2 =>
                  rw [passesStall_succ_iff ran]
                  exact before (j + 1) (Nat.lt_of_succ_lt_succ less) j.succ_pos
            · intro less
              obtain ⟨positive, stalls⟩ := last (Nat.lt_of_succ_lt_succ less)
              obtain ⟨i, rfl⟩ := Nat.exists_eq_add_one.mpr positive
              exact ⟨Nat.succ_pos _, (passesStall_succ_iff ran i).mpr stalls⟩

end Cut

end Run

section Band

variable (solver : Solver α) (pb : BandProblem α) (opts : FitOptions α) (passes : ℕ) (b : Band α)
variable (source : Option (Band α))

theorem fitBand_eq : fitBand solver pb opts passes b source =
    runPasses solver pb opts.earlyExit passes pb.tuning.firstTolerance
      (startError pb opts (bandStart pb b source)) (bandStart pb b source) := rfl

theorem fitBand_course : Course solver (bandStart pb b source)
    (bandCalls solver pb opts passes b source)
    ((fitBand solver pb opts passes b source).map FittedBand.band) :=
  runPasses_course solver pb opts.earlyExit passes _ _ _

/-- Without early exit a band is fitted by all its passes. -/
theorem fitBand_full (full : opts.earlyExit = none) :
    fitBand solver pb opts passes b source = runPasses solver pb none passes
        pb.tuning.firstTolerance none (bandStart pb b source) ∧
      bandCalls solver pb opts passes b source = passCalls solver pb none passes
        pb.tuning.firstTolerance none (bandStart pb b source) := by
  have follows : Follows pb (startError pb opts (bandStart pb b source)) (bandStart pb b source) :=
    follows_startError opts _
  rw [fitBand_eq, bandCalls, full]
  exact runPasses_untracked passes _ follows

theorem fitBand_verbose (verbose : Bool) :
    fitBand solver pb { opts with verbose } passes b source =
      fitBand solver pb opts passes b source := by
  by_cases full : opts.earlyExit = none
  · rw [(fitBand_full solver pb opts passes b source full).1]
    exact (fitBand_full solver pb { opts with verbose } passes b source full).1
  · have follows (verbose : Bool) (start : Band α) :
        startError pb { opts with verbose } start = some (pb.error start) := by
      simp [startError, Option.isSome_iff_ne_none, full]
    rw [fitBand_eq, fitBand_eq, follows, ← follows opts.verbose]

/-- Whether the last of `k` passes of a band that is fitted in full gains at most the share `eps`
of the error before it. -/
def BandStalls (eps : α) (k : ℕ) : Prop :=
  ∃ before after, fitBand solver pb { opts with earlyExit := none } (k - 1) b source = .ok before ∧
    fitBand solver pb { opts with earlyExit := none } k b source = .ok after ∧
    before.error - after.error ≤ eps * before.error

theorem bandStalls_iff (eps : α) (k : ℕ) : BandStalls solver pb opts b source eps k ↔
    PassesStall solver pb eps pb.tuning.firstTolerance (bandStart pb b source) k := by
  have full (j : ℕ) := (fitBand_full solver pb { opts with earlyExit := none } j b source rfl).1
  rw [BandStalls, full, full, PassesStall]

end Band

section Fit

variable (solver : Solver α) {inks : InkSet} {samples : List (Sample α)} {opts : FitOptions α}

theorem fitTurns_verbose (verbose : Bool) (problem : ℕ → BandProblem α)
    (bands : Array (Band α)) (turns : List Turn) :
    fitTurns solver { opts with verbose } problem bands turns =
      fitTurns solver opts problem bands turns := by
  induction turns generalizing bands with
  | nil => rfl
  | cons turn turns ih =>
      rw [fitTurns, fitTurns]
      simp only [fitBand_verbose, ih]

theorem fit_verbose (verbose : Bool) :
    fit solver inks samples { opts with verbose } = fit solver inks samples opts := by
  unfold fit
  simp only [fitTurns_verbose]

variable {solver} in
/-- What is fitted has samples. -/
theorem samples_ne_nil {parts : Parts α} (fitted : fit solver inks samples opts = .ok parts) :
    samples ≠ [] := by
  rintro rfl
  simp only [fit, bind_eq_ok_iff] at fitted
  obtain ⟨_, -, _, -, points, prepared, -⟩ := fitted
  exact (fitPoints_eq_ok prepared).1 (by simpa using (fitPoints_eq_ok prepared).2)

/-- A report never fails behind a fit. -/
theorem ofSamples_eq : Model.ofSamples solver inks samples opts =
    (fit solver inks samples opts).bind fun parts => Model.build solver parts opts.tuning := by
  simp only [Model.ofSamples, bind, Except.bind]
  cases fitted : fit solver inks samples opts with
  | error e => rfl
  | ok parts =>
      dsimp only
      cases Model.build solver parts opts.tuning with
      | error e => rfl
      | ok model =>
          obtain ⟨r, report⟩ : ∃ r, model.fitReport samples = .ok r := by
            refine ⟨_, if_neg ?_⟩
            simpa using samples_ne_nil fitted
          dsimp only
          rw [report]
          cases opts.verbose <;> rfl

/-- Nothing that is fitted depends on whether the fit is watched. A band that may exit early is
fitted by the minimizations of its full run, up to the first pass that gains at most the given
share of the error before it, and its error is the one of the band that is left. -/
theorem fit_unwatched_band_cut (solver : Solver α) :
    (∀ inks samples (opts : FitOptions α) verbose,
      fit solver inks samples { opts with verbose } = fit solver inks samples opts ∧
        Model.ofSamples solver inks samples { opts with verbose } =
          Model.ofSamples solver inks samples opts) ∧
    ∀ pb (opts : FitOptions α) passes b source,
      Course solver (bandStart pb b source) (bandCalls solver pb opts passes b source)
        ((fitBand solver pb opts passes b source).map FittedBand.band) ∧
      (∀ fitted, fitBand solver pb opts passes b source = .ok fitted →
        fitted.error = pb.error fitted.band) ∧
      ∀ eps, ∃ k ≤ passes,
        fitBand solver pb { opts with earlyExit := some eps } passes b source =
          fitBand solver pb { opts with earlyExit := none } k b source ∧
        bandCalls solver pb { opts with earlyExit := some eps } passes b source =
          bandCalls solver pb { opts with earlyExit := none } k b source ∧
        bandCalls solver pb { opts with earlyExit := none } k b source <+:
          bandCalls solver pb { opts with earlyExit := none } passes b source ∧
        (∀ j < k, 0 < j → ¬BandStalls solver pb opts b source eps j) ∧
        (k < passes → 0 < k ∧ BandStalls solver pb opts b source eps k) := by
  refine ⟨fun inks samples opts verbose => ⟨fit_verbose solver verbose, ?_⟩,
    fun pb opts passes b source => ⟨fitBand_course solver pb opts passes b source, ?_, ?_⟩⟩
  · rw [ofSamples_eq, ofSamples_eq, fit_verbose]
  · intro fitted ran
    exact runPasses_error (follows_startError opts _) ran
  · intro eps
    have whole (j : ℕ) := fitBand_full solver pb { opts with earlyExit := none } j b source rfl
    have follows : startError pb { opts with earlyExit := some eps } (bandStart pb b source) =
        some (pb.error (bandStart pb b source)) := by
      simp [startError]
    obtain ⟨k, within, same, calls, early, first, last⟩ :=
      runPasses_cut solver pb eps passes pb.tuning.firstTolerance (bandStart pb b source)
    refine ⟨k, within, ?_⟩
    simp only [bandStalls_iff, (whole _).1, (whole _).2]
    refine ⟨?_, ?_, early, first, last⟩
    · rw [fitBand_eq, follows]
      exact same
    · rw [bandCalls, follows]
      exact calls

end Fit

end InkModel
