import StepRunner.Proofs.Run.Finish

/-!
# What success means

A run that succeeds has waited for the end of its pod, and the report of this wait holds nothing
against it.  The wait knows the containers of the pod from the snapshots only, not from the spec, so
success answers for a container of the spec only if a snapshot has listed it.

* `Run.Before`                a run before the wait for the end of its pod
* `Run.Succeeding`            a run of a step, with the snapshots before this wait and in it
* `Fits.endedWell`            the containers of a report without an error have ended well
* `succeeded_of_play`         the containers of the spec have, if they were listed
-/

namespace StepRunner

variable {σ : Type}

namespace Run

variable {setup : Setup σ} {spec : PodSpec} {shown : List PodSnapshot} {r r' : Run}
  {w w' : World σ}

theorem isEarly_of_streamed? (h : r.streamed? = some spec) : r.isEarly = true := by
  unfold streamed? at h
  unfold isEarly
  split at h <;> simp_all

/-! ## before the wait -/

/-- a run before the wait for the end of its pod, or one that will not come to it -/
structure Before (r : Run) : Prop where
  report : r.report = none
  phase : r.isEarly = true ∨ (∃ e, r.outcome? = some (some e)) ∨ r.phase = .panicked

theorem Before.congr (h : r.Before) (hp : r'.phase = r.phase) (hr : r'.report = r.report) :
    r'.Before := by
  refine ⟨hr.trans h.report, ?_⟩
  simpa only [isEarly, outcome?, hp] using h.phase

theorem Before.not_finishing (h : r.Before) {f : Finishing} : r.phase ≠ .finishing spec f := by
  intro hp
  have hphase := h.phase
  simp [isEarly, outcome?, hp] at hphase

theorem Before.error_of_deleting (h : r.Before) {outcome : Option RunError}
    (hp : r.phase = .deleting spec outcome) : ∃ e, outcome = some e := by
  have hphase := h.phase
  simpa [isEarly, outcome?, hp] using hphase

theorem before_or_waits_afterJoining (hn : r.report = none) (hw : r.extent = .whole)
    (fatal : Option RunError) (now : Nat) :
    (r.afterJoining setup spec fatal now).Before ∨
      (r.afterJoining setup spec fatal now).Waits setup spec [] := by
  unfold afterJoining
  rw [hw]
  cases logError? fatal r.failures with
  | none =>
    right
    exact .waiting rfl hn (Finishing.follows_begin spec.ref setup.config.pollLimit)
  | some e =>
    left
    exact ⟨hn, .inr (.inl ⟨e, rfl⟩)⟩

theorem Before.transition (h : r.Before) (hw : r.extent = .whole)
    (ht : Transition setup r w r' w') :
    r'.Before ∨ ∃ spec, r.owned? = some spec ∧ r'.Waits setup spec [] := by
  have hn := h.report
  cases ht with
  | cancelledEarly => exact .inl ⟨hn, .inr (.inl ⟨_, rfl⟩)⟩
  | buildPanicked => exact .inl ⟨hn, .inr (.inr rfl)⟩
  | buildRefused => exact .inl ⟨hn, .inr (.inl ⟨_, rfl⟩)⟩
  | built => exact .inl ⟨hn, .inl rfl⟩
  | asked => exact .inl (h.congr rfl rfl)
  | createRefused => exact .inl ⟨hn, .inr (.inl ⟨_, rfl⟩)⟩
  | created => exact .inl ⟨hn, .inl rfl⟩
  | cancelled => exact .inl ⟨hn, .inr (.inl ⟨_, rfl⟩)⟩
  | @streamingLook spec s watch outcome =>
    obtain ⟨hs, -, -, hr, -⟩ := afterStreaming_spec r spec { s with watch } w.now outcome
    exact .inl ⟨hr.trans hn, .inl (isEarly_of_streamed? hs)⟩
  | streamingAgain => exact .inl ⟨hn, .inl rfl⟩
  | @announced spec s container =>
    obtain ⟨hs, -, -, hr, -⟩ := afterNotice_spec r spec s container w.now
    exact .inl ⟨hr.trans hn, .inl (isEarly_of_streamed? hs)⟩
  | joinedPanicked => exact .inl (h.congr rfl rfl)
  | joined => exact .inl (h.congr rfl rfl)
  | @joinedAll spec fatal hp =>
    exact (before_or_waits_afterJoining hn hw fatal w.now).imp_right
      fun hwaits => ⟨spec, by simp [owned?, hp], hwaits⟩
  | finishingLook hp => exact absurd hp h.not_finishing
  | finishingAgain hp => exact absurd hp h.not_finishing
  | deleteRefused hp =>
    obtain ⟨e, rfl⟩ := h.error_of_deleting hp
    exact .inl ⟨hn, .inr (.inl ⟨e, rfl⟩)⟩
  | deleted hp =>
    obtain ⟨e, rfl⟩ := h.error_of_deleting hp
    exact .inl ⟨hn, .inr (.inl ⟨e, rfl⟩)⟩

theorem Before.event {e : RunEvent σ} (h : e.before.Before) (hw : e.before.extent = .whole)
    (hv : e.Valid setup) :
    e.after.Before ∨ ∃ spec, e.before.owned? = some spec ∧ e.after.Waits setup spec [] := by
  unfold RunEvent.Valid at hv
  split at hv
  · exact h.transition hw (transition_of_act hv)
  · obtain ⟨t, result, -, -, -, hafter⟩ := transition_of_actTask hv
    left
    rw [hafter]
    exact h.congr rfl rfl

/-! ## all of a run -/

theorem phase_of_succeeded (h : (r.isOver && r.result.succeeded) = true) :
    r.phase = .ended none := by
  cases hp : r.phase with
  | ended outcome =>
    cases outcome with
    | none => rfl
    | some e => simp [isOver, result, StepResult.succeeded, isPanicked, error?, hp] at h
  | panicked => simp [isOver, result, StepResult.succeeded, isPanicked, hp] at h
  | _ => simp [isOver, hp] at h

/-- A run of `step` with its calls so far and the snapshots that it was shown; those of the wait for
the end of its pod are the last ones. -/
structure Succeeding (setup : Setup σ) (step : StepDefinition) (past : List (RunEvent σ))
    (r : Run) : Prop where
  conforms : r.Conforms setup step (past.flatMap RunEvent.calls)
  wait : r.Before ∨ ∃ spec earlier shown, setup.build step = .spec spec ∧
    past.flatMap (RunEvent.shown setup) = earlier ++ shown ∧ r.Waits setup spec shown

theorem succeeding_begin (setup : Setup σ) (step : StepDefinition) :
    Succeeding setup step [] { step } :=
  ⟨conforms_begin setup step, .inl ⟨rfl, .inl rfl⟩⟩

theorem Succeeding.event {step : StepDefinition} {past : List (RunEvent σ)} {e : RunEvent σ}
    (h : e.before.Succeeding setup step past) (hv : e.Valid setup) :
    e.after.Succeeding setup step (past ++ [e]) := by
  obtain ⟨hconf, hwait⟩ := h
  constructor
  · rw [List.flatMap_append, List.flatMap_singleton]
    exact (hconf.event hv).2
  rw [List.flatMap_append, List.flatMap_singleton]
  obtain hbefore | ⟨spec, earlier, shown, hb, hshown, hwaits⟩ := hwait
  · -- all snapshots so far come before the wait if it begins with this step
    obtain hbefore' | ⟨spec, howned, hwaits⟩ := hbefore.event hconf.tidy.whole hv
    · exact .inl hbefore'
    · exact .inr ⟨spec, _, [], (hconf.inUse howned).1, (List.append_nil _).symm, hwaits⟩
  · refine .inr ⟨spec, earlier, shown ++ e.shown setup, hb, ?_, hwaits.event hv⟩
    rw [hshown, List.append_assoc]

theorem Succeeding.report {step : StepDefinition} {past : List (RunEvent σ)}
    (h : r.Succeeding setup step past) (hend : r.phase = .ended none) :
    ∃ spec report earlier shown, setup.build step = .spec spec ∧ r.report = some report ∧
      past.flatMap (RunEvent.shown setup) = earlier ++ shown ∧ report.Fits shown ∧
      report.verdict? setup.config.checkExitCodes spec.ref.text = none := by
  have hout : r.outcome? = some none := by simp only [outcome?, hend]
  obtain hbefore | ⟨spec, earlier, shown, hb, hshown, hwaits⟩ := h.wait
  · have hphase := hbefore.phase
    simp [isEarly, outcome?, hend] at hphase
  · cases hwaits with
    | waiting hp =>
      rw [hend] at hp
      cases hp
    | failed ho =>
      rw [hout] at ho
      cases ho
    | reported ho hr hf hv =>
      rw [hout] at ho
      cases ho
      exact ⟨spec, _, earlier, shown, hb, hr, hshown, hf, (hv h.conforms.tidy.whole).symm⟩

end Run

/-! ## what success answers for -/

theorem ReportedState.terminated_of_derive {s : ReportedState} (h : s.derive = .terminated) :
    s.terminated.isSome = true := by
  unfold derive ContainerState.ofParts at h
  split at h
  · cases h
  · split at h
    · cases h
    · split at h
      next hterminated => exact hterminated
      next => cases h

theorem PodSnapshot.exitCode_of_terminated {s : PodSnapshot} {o : Observation}
    (ho : o ∈ s.observations) (hstate : o.state = .terminated) :
    ∃ code, o.exitCode = some code := by
  have hof (role : ContainerRole) (status : ContainerStatus)
      (h : (Observation.of s.identity role status).state = .terminated) :
      ∃ code, (Observation.of s.identity role status).exitCode = some code := by
    have hderive : status.state.derive = .terminated := h
    obtain ⟨info, hinfo⟩ :=
      Option.isSome_iff_exists.1 (ReportedState.terminated_of_derive hderive)
    refine ⟨info.exitCode, ?_⟩
    simp only [Observation.of, hderive, if_true, hinfo, Option.map_some]
  rw [observations, List.mem_append] at ho
  obtain ho | ho := ho
  · obtain ⟨status, -, rfl⟩ := List.mem_map.1 ho
    exact hof .init status hstate
  · obtain ⟨status, -, rfl⟩ := List.mem_map.1 ho
    exact hof .app status hstate

namespace FinishedPod

variable {report : FinishedPod} {shown : List PodSnapshot} {pod : String}

theorem of_verdict?_eq_none (h : report.verdict? true pod = none) :
    firstFailed? report.containers = none ∧ report.unfinished = [] := by
  rw [verdict?, if_pos rfl, Option.or_eq_none_iff] at h
  obtain ⟨hexit, hleft⟩ := h
  constructor
  · unfold exitError? at hexit
    split at hexit
    next => cases hexit
    next hnone => exact hnone
  · unfold leftError? at hleft
    split at hleft
    next hempty => exact List.isEmpty_iff.1 hempty
    next => cases hleft

theorem Fits.endedWell (h : report.Fits shown) (hv : report.verdict? true pod = none) :
    ∀ o ∈ report.containers, o.state = .terminated ∧ o.exitCode = some 0 := by
  intro o ho
  obtain ⟨hstate, s, -, hmem⟩ := h.containers o ho
  obtain ⟨code, hcode⟩ := PodSnapshot.exitCode_of_terminated hmem hstate
  have hgood := List.find?_eq_none.1 (of_verdict?_eq_none hv).1 o ho
  have hzero : code = 0 := by simpa [Observation.isFailure, hcode] using hgood
  exact ⟨hstate, hzero ▸ hcode⟩

end FinishedPod

theorem mem_names_of_listed {earlier : List PodSnapshot} {last : PodSnapshot}
    (h : (earlier ++ [last]).Pairwise fun s t => ∀ name ∈ s.names, name ∈ t.names) {name : String}
    (hlisted : Listed (earlier ++ [last]) name) : name ∈ last.names := by
  obtain ⟨s, hs, hname⟩ | hname := Listed.append_iff.1 hlisted
  · exact (List.pairwise_append.1 h).2.2 s hs last (List.mem_singleton_self last) name hname
  · exact hname

namespace Crew

variable {setup : Setup σ} {c : Crew σ} {i : Nat} {step : StepDefinition}

/-- **What success answers for.**  Where a container that was listed once stays listed, a run that
succeeds with exit codes checked has seen all containers of its spec terminated with exit code zero
just when each of them was listed by some snapshot. -/
theorem succeeded_of_play (hr : c.runs[i]? = some { step })
    (hcheck : setup.config.checkExitCodes = true) (moves : List Move)
    (hend : (c.play setup moves).runs[i]?.map (·.phase) = some (.ended none))
    (hgrow : ((c.events setup i moves).flatMap (RunEvent.shown setup)).Pairwise
      fun s t => ∀ name ∈ s.names, name ∈ t.names) :
    ∃ spec report, setup.build step = .spec spec ∧
      (c.play setup moves).runs[i]?.bind (·.report) = some report ∧
      ((∀ k ∈ spec.allContainers, ∃ o ∈ report.containers,
          o.name = k.name ∧ o.state = .terminated ∧ o.exitCode = some 0) ↔
        ∀ k ∈ spec.allContainers,
          Listed ((c.events setup i moves).flatMap (RunEvent.shown setup)) k.name) := by
  obtain ⟨r, hr', hsucc⟩ := play_induction (Q := Run.Succeeding setup step)
    (fun _ _ h hv => h.event hv) moves hr (Run.succeeding_begin setup step)
  rw [hr', Option.map_some, Option.some.injEq] at hend
  obtain ⟨spec, report, earlier, shown, hb, hreport, hshown, hfits, hverdict⟩ := hsucc.report hend
  rw [hcheck] at hverdict
  obtain ⟨front, last, rfl, -, -, hnames⟩ := hfits.last
  rw [hshown, ← List.append_assoc] at hgrow ⊢
  refine ⟨spec, report, hb, by rw [hr']; exact hreport, ?_⟩
  refine forall₂_congr fun k _ => ?_
  constructor
  · rintro ⟨o, ho, hname, -⟩
    obtain ⟨-, s, hs, hmem⟩ := hfits.containers o ho
    refine ⟨s, ?_, PodSnapshot.mem_names.2 ⟨o, hmem, hname⟩⟩
    rw [List.append_assoc]
    exact List.mem_append_right _ hs
  · intro hlisted
    have hlast := mem_names_of_listed hgrow hlisted
    obtain ⟨o, ho, hname⟩ := hnames (FinishedPod.of_verdict?_eq_none hverdict).2 k.name hlast
    exact ⟨o, ho, hname, hfits.endedWell hverdict o ho⟩

theorem succeeded_of_unlisted :
    let spec : PodSpec :=
      { name := "p", namespaceName := "ns"
        containers := [{ name := "step", image := "i" }, { name := "b", image := "i" }] }
    let setup : Setup (List PodSnapshot) := ⟨replay, {}, fun _ => .spec spec⟩
    let shown : List PodSnapshot :=
      [{ phase := .running, statuses := [.running "step" true] },
        { phase := .running, statuses := [.terminated "step" 0] }]
    let c := ofRuns [{ step := { name := "s", image := "i" } }] { state := shown } none
    let run (times : Nat) : List Move := List.replicate times (.act (.run 0))
    let moves := run 6 ++ List.replicate 3 (.act (.logTask 0 0)) ++ run 6
    (c.play setup moves).runs[0]?.map (·.phase) = some (.ended none) ∧
      (c.events setup 0 moves).flatMap (RunEvent.shown setup) = shown ∧
      ∃ report, (c.play setup moves).runs[0]?.bind (·.report) = some report ∧
        ¬ ∀ k ∈ spec.allContainers, ∃ o ∈ report.containers,
          o.name = k.name ∧ o.state = .terminated ∧ o.exitCode = some 0 := by
  intro spec setup shown c run moves
  have hover : (c.play setup moves).runs[0]?.map
      (fun r => r.isOver && r.result.succeeded) = some true := by decide +kernel
  have hend : (c.play setup moves).runs[0]?.map (·.phase) = some (.ended none) := by
    obtain ⟨r, hr, hgood⟩ := Option.map_eq_some_iff.1 hover
    rw [hr, Option.map_some, Run.phase_of_succeeded hgood]
  have hshown : (c.events setup 0 moves).flatMap (RunEvent.shown setup) = shown := by
    decide +kernel
  refine ⟨hend, hshown, ?_⟩
  obtain ⟨spec', report, hb, hreport, hiff⟩ :=
    succeeded_of_play (c := c) (i := 0) rfl rfl moves hend (by rw [hshown]; decide)
  cases hb
  refine ⟨report, hreport, fun hall => ?_⟩
  have hnever : ∀ s ∈ shown, "b" ∉ s.names := by decide
  obtain ⟨s, hs, hname⟩ := hiff.1 hall { name := "b", image := "i" } (by decide)
  rw [hshown] at hs
  exact hnever s hs hname

end Crew

end StepRunner
