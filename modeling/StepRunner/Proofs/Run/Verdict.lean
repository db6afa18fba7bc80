import Mathlib.Data.List.Nodup
import StepRunner.Proofs.Run.Progress
import StepRunner.Proofs.Run.Success

/-!
# The verdict on a step

How a run ends when nothing goes wrong on its way: the token does not fire, the platform answers, no
wait comes to its limit and no log task fails.  Then its outcome is the verdict on what the wait for
the end of the pod has collected, and this is the latest of each container that it was handed, and
all that is left of the last snapshot.

* `RunEvent.Smooth`         a step at which nothing goes wrong
* `Watch.Answered`          what a wait makes of a look then
* `Collects`                what this wait collects of what it was handed
* `FinishedPod.Sums`        its report
* `FinishedPod.Verdict`     what a report means for a step
* `Run.Going`               a run of a step for which nothing has gone wrong
* `verdict_of_play`         how it ends
-/

namespace StepRunner

variable {σ : Type}

/-! ## steps at which nothing goes wrong -/

namespace RunEvent

/-- what a step has warned of -/
def warned (e : RunEvent σ) : List Warning := e.left.warnings.toList.drop e.seen.warnings.size

/-- A step at which nothing goes wrong: the token has not fired, a pod is created and looked at if
this is what was asked for, no wait comes to its limit, and no log task has failed. -/
structure Smooth (e : RunEvent σ) : Prop where
  uncancelled : e.seen.cancelled = false
  created : ∀ call ∈ e.calls, call.event ≠ .created false
  fetched : ∀ call ∈ e.calls, call.event ≠ .fetched false
  limit : .pollLimitExceeded ∉ e.warned
  streamed : e.after.failures = []

variable {setup : Setup σ} {e : RunEvent σ}

theorem warned_of_warn {w : World σ} {warnings : List Warning} (h : e.left = w.warn warnings)
    (hw : w.warnings = e.seen.warnings) : e.warned = warnings := by
  have hleft : e.left.warnings.toList = e.seen.warnings.toList ++ warnings := by
    rw [h, World.warn, hw]
    simp
  rw [warned, hleft, ← Array.length_toList, List.drop_left]

end RunEvent

theorem RunEvent.Smooth.created_of_call {e : RunEvent σ} (h : e.Smooth) {call : CallRecord}
    (hl : e.left.calls = call :: e.seen.calls) : call.event ≠ .created false := by
  have hmade : e.calls = [call] := RunEvent.calls_of_append [call] hl
  refine h.created call ?_
  rw [hmade]
  exact List.mem_singleton_self call

theorem Watch.warnings_of_limit {w watch : Watch} {polls n : Nat} {pod : String} {goal : Goal}
    {answer : Except ClusterError PodSnapshot} {warnings : List Warning}
    (h : w.answer polls answer = (watch, some (.error (.pollLimitExceeded pod goal n)), warnings)) :
    .pollLimitExceeded ∈ warnings := by
  unfold Watch.answer at h
  split at h
  next => cases h
  next =>
    split at h
    next => cases h
    next =>
      split at h
      next => cases h
      next =>
        split at h
        next => cases h
        next =>
          split at h
          next =>
            cases h
            exact List.mem_singleton_self _
          next => cases h

/-- What a wait makes of a snapshot, if it has not come to its limit. -/
inductive Watch.Answered (w : Watch) (s : PodSnapshot) : Watch → Option Watch.Outcome → Prop where
  | handed {o : Observation} (hs : (w.absorb s).2 = some o) :
      Answered w s (w.absorb s).1 (some (.ok o))
  | nothingLeft (hs : (w.absorb s).2 = none) (hr : (w.absorb s).1.remaining = false) :
      Answered w s (w.absorb s).1 (some (.error (w.absorb s).1.nothingLeft))
  | podFinished (hs : (w.absorb s).2 = none) :
      Answered w s (w.absorb s).1
        (some (.error (.podFinished w.pod.text (w.absorb s).1.phase w.goal
          (w.absorb s).1.pending.length)))
  | again (hs : (w.absorb s).2 = none) : Answered w s (w.absorb s).1 none

theorem RunEvent.Smooth.look {setup : Setup σ} {e : RunEvent σ} (h : e.Smooth) {spec : PodSpec}
    {watch next : Watch} {polls : Nat} {outcome : Option Watch.Outcome} {warnings : List Warning}
    (ha : watch.answer polls (e.seen.fetch setup.platform spec.ref).1 = (next, outcome, warnings))
    (hl : e.left = (e.seen.fetch setup.platform spec.ref).2.warn warnings) :
    ∃ s, e.shown setup = [s] ∧ watch.Answered s next outcome := by
  have hcalls : e.left.calls = (e.seen.fetch setup.platform spec.ref).2.calls := by
    rw [hl]
    rfl
  have hshown := RunEvent.shown_of_fetch hcalls
  have hmade : e.calls =
      [⟨e.seen.now, spec.ref, .fetched (e.seen.fetch setup.platform spec.ref).1.isOk⟩] :=
    RunEvent.calls_of_append [_] hcalls
  have hfetched := h.fetched _ (by rw [hmade]; exact List.mem_singleton_self _)
  have hlimit := h.limit
  rw [RunEvent.warned_of_warn hl rfl] at hlimit
  have hlook := Watch.look_of_answer ha
  generalize hanswer : (e.seen.fetch setup.platform spec.ref).1 = answer at hlook hshown hfetched ha
  cases hlook with
  | refused error => exact absurd rfl hfetched
  | @limitReached s => exact absurd (Watch.warnings_of_limit ha) hlimit
  | @handed s o hs => exact ⟨s, hshown, .handed hs⟩
  | @again s hs => exact ⟨s, hshown, .again hs⟩
  | @nothingLeft s hs hr => exact ⟨s, hshown, .nothingLeft hs hr⟩
  | @podFinished s hs => exact ⟨s, hshown, .podFinished hs⟩

/-! ## collecting -/

section
variable {o x : Observation} {l : List Observation}

theorem names_noteContainer (o : Observation) (l : List Observation) :
    (noteContainer o l).map (·.name) =
      if o.name ∈ l.map (·.name) then l.map (·.name) else l.map (·.name) ++ [o.name] := by
  induction l with
  | nil => rfl
  | cons old rest ih =>
    unfold noteContainer
    by_cases h : old.name = o.name
    · simp [h]
    · have h' : ¬ o.name = old.name := fun heq => h heq.symm
      rw [if_neg h, List.map_cons, ih]
      by_cases hrest : o.name ∈ rest.map (·.name)
      · simp only [List.map_cons, List.mem_cons, h', hrest, false_or, if_true]
      · simp only [List.map_cons, List.mem_cons, h', hrest, or_self, if_false, List.cons_append]

theorem nodup_noteContainer (o : Observation) (h : (l.map (·.name)).Nodup) :
    ((noteContainer o l).map (·.name)).Nodup := by
  rw [names_noteContainer]
  split
  next => exact h
  next hnew => exact List.nodup_append.2 ⟨h, List.nodup_singleton _, by simp_all⟩

theorem mem_noteContainer_iff (h : (l.map (·.name)).Nodup) :
    x ∈ noteContainer o l ↔ x = o ∨ (x ∈ l ∧ x.name ≠ o.name) := by
  induction l with
  | nil => simp [noteContainer]
  | cons old rest ih =>
    rw [List.map_cons, List.nodup_cons] at h
    unfold noteContainer
    by_cases hold : old.name = o.name
    · have hrest : ∀ y ∈ rest, y.name ≠ o.name := fun y hy heq =>
        h.1 (hold ▸ heq ▸ List.mem_map_of_mem hy)
      rw [if_pos hold, List.mem_cons, List.mem_cons]
      constructor
      · rintro (rfl | hx)
        · exact .inl rfl
        · exact .inr ⟨.inr hx, hrest x hx⟩
      · rintro (rfl | ⟨rfl | hx, hne⟩)
        · exact .inl rfl
        · exact absurd hold hne
        · exact .inr hx
    · rw [if_neg hold, List.mem_cons, List.mem_cons, ih h.2]
      constructor
      · rintro (rfl | rfl | ⟨hx, hne⟩)
        · exact .inr ⟨.inl rfl, hold⟩
        · exact .inl rfl
        · exact .inr ⟨.inr hx, hne⟩
      · rintro (rfl | ⟨rfl | hx, hne⟩)
        · exact .inr (.inl rfl)
        · exact .inl rfl
        · exact .inr (.inr ⟨hx, hne⟩)

end

/-- containers that were collected one by one: the latest of each that was handed over -/
structure Collects (containers done : List Observation) : Prop where
  names : (containers.map (·.name)).Nodup
  latest : ∀ o, o ∈ containers ↔ latest? done o.name = some o

theorem collects_nil : Collects [] [] := ⟨List.nodup_nil, by simp [latest?]⟩

theorem Collects.note {containers done : List Observation} (h : Collects containers done)
    (o : Observation) : Collects (noteContainer o containers) (done ++ [o]) := by
  refine ⟨nodup_noteContainer o h.names, fun x => ?_⟩
  rw [mem_noteContainer_iff h.names, latest?_concat, h.latest x]
  by_cases hname : x.name = o.name
  · rw [if_pos hname]
    constructor
    · rintro (rfl | ⟨-, hne⟩)
      · rfl
      · exact absurd hname hne
    · intro heq
      exact .inl (Option.some.inj heq).symm
  · rw [if_neg hname]
    constructor
    · rintro (rfl | ⟨hlatest, -⟩)
      · exact absurd rfl hname
      · exact hlatest
    · exact fun hlatest => .inr ⟨hlatest, hname⟩

/-! ## reports -/

namespace FinishedPod

/-- What a report of the wait for the end of a pod says of the snapshots that were shown, and of the
containers that this wait was handed. -/
structure Sums (report : FinishedPod) (shown : List PodSnapshot) (done : List Observation) :
    Prop where
  collects : Collects report.containers done
  terminated : ∀ o ∈ report.containers, o.state = .terminated ∧ ∃ code, o.exitCode = some code
  last : ∃ earlier last, shown = earlier ++ [last] ∧ report.phase = last.phase ∧
    ∀ name ∈ last.names,
      (∃ o ∈ report.containers, o.name = name) ∨ ∃ o ∈ report.unfinished, o.name = name

/-- What a report means for its step: the first container that failed counts before the phase of the
pod, where exit codes are to be checked, and both count before the containers left behind. -/
inductive Verdict (checkExitCodes : Bool) (pod : String) (report : FinishedPod) :
    Option RunError → Prop where
  | containerFailed {before after : List Observation} {o : Observation} {code : Int32}
      (hc : checkExitCodes = true) (hs : report.containers = before ++ o :: after)
      (hb : ∀ x ∈ before, x.exitCode = some 0) (ho : o.exitCode = some code) (hn : code ≠ 0) :
      Verdict checkExitCodes pod report (some (.containerFailed pod o.name code))
  | podFailed (hc : checkExitCodes = true) (hall : ∀ o ∈ report.containers, o.exitCode = some 0)
      (hp : report.phase = .failed) : Verdict checkExitCodes pod report (some (.podFailed pod))
  | podFinished
      (hc : checkExitCodes = true →
        (∀ o ∈ report.containers, o.exitCode = some 0) ∧ report.phase ≠ .failed)
      (hu : report.unfinished ≠ []) :
      Verdict checkExitCodes pod report
        (some (.podFinished pod report.phase .done report.unfinished.length))
  | succeeded
      (hc : checkExitCodes = true →
        (∀ o ∈ report.containers, o.exitCode = some 0) ∧ report.phase ≠ .failed)
      (hu : report.unfinished = []) : Verdict checkExitCodes pod report none

variable {report : FinishedPod} {pod : String} {checkExitCodes : Bool}

theorem exitCode_of_not_isFailure {o : Observation} (hcode : ∃ code, o.exitCode = some code)
    (h : o.isFailure = false) : o.exitCode = some 0 := by
  obtain ⟨code, hcode⟩ := hcode
  have hzero : code = 0 := by simpa [Observation.isFailure, hcode] using h
  rw [hcode, hzero]

theorem verdict_of_exitError? (pod : String)
    (hcodes : ∀ o ∈ report.containers, ∃ code, o.exitCode = some code) :
    (∃ error, report.exitError? pod = some error ∧ report.Verdict true pod (some error)) ∨
      report.exitError? pod = none ∧ (∀ o ∈ report.containers, o.exitCode = some 0) ∧
        report.phase ≠ .failed := by
  unfold exitError?
  cases hfirst : firstFailed? report.containers with
  | some o =>
    obtain ⟨hfailure, before, after, hs, hbefore⟩ := List.find?_eq_some_iff_append.1 hfirst
    have hmem : o ∈ report.containers := by
      rw [hs]
      exact List.mem_append_right _ List.mem_cons_self
    obtain ⟨code, hcode⟩ := hcodes o hmem
    have hne : code ≠ 0 := by simpa [Observation.isFailure, hcode] using hfailure
    left
    refine ⟨_, rfl, ?_⟩
    rw [hcode, Option.getD_some]
    refine .containerFailed rfl hs (fun x hx => ?_) hcode hne
    refine exitCode_of_not_isFailure (hcodes x ?_) (by simpa using hbefore x hx)
    rw [hs]
    exact List.mem_append_left _ hx
  | none =>
    have hall : ∀ o ∈ report.containers, o.exitCode = some 0 := fun o ho =>
      exitCode_of_not_isFailure (hcodes o ho) (by simpa using List.find?_eq_none.1 hfirst o ho)
    by_cases hp : report.phase = .failed
    · left
      exact ⟨_, if_pos hp, .podFailed rfl hall hp⟩
    · right
      exact ⟨if_neg hp, hall, hp⟩

theorem verdict_of_verdict? (hcodes : ∀ o ∈ report.containers, ∃ code, o.exitCode = some code) :
    report.Verdict checkExitCodes pod (report.verdict? checkExitCodes pod) := by
  have hleft (hc : checkExitCodes = true →
      (∀ o ∈ report.containers, o.exitCode = some 0) ∧ report.phase ≠ .failed) :
      report.Verdict checkExitCodes pod (report.leftError? pod) := by
    unfold leftError?
    split
    next hempty => exact .succeeded hc (List.isEmpty_iff.1 hempty)
    next hempty => exact .podFinished hc fun hnil => hempty (List.isEmpty_iff.2 hnil)
  unfold verdict?
  cases checkExitCodes with
  | false =>
    rw [if_neg Bool.false_ne_true]
    exact hleft (by simp)
  | true =>
    rw [if_pos rfl]
    obtain ⟨error, herror, hverdict⟩ | ⟨hnone, hall⟩ := verdict_of_exitError? pod hcodes
    · rw [herror]
      exact hverdict
    · rw [hnone, Option.none_or]
      exact hleft fun _ => hall

theorem Sums.of_append {earlier seen : List PodSnapshot} {done : List Observation}
    (h : report.Sums seen done) : report.Sums (earlier ++ seen) done := by
  obtain ⟨hc, ht, front, last, rfl, hphase, hnames⟩ := h
  exact ⟨hc, ht, earlier ++ front, last, (List.append_assoc ..).symm, hphase, hnames⟩

/-- where a step succeeds with exit codes checked, each container of the last snapshot was handed
over with exit code zero when it was handed over last -/
theorem Sums.endedWell {shown : List PodSnapshot} {done : List Observation}
    (h : report.Sums shown done) (hv : report.Verdict true pod none) :
    ∃ earlier last, shown = earlier ++ [last] ∧
      ∀ name ∈ last.names, ∃ o, latest? done name = some o ∧ o.exitCode = some 0 := by
  obtain ⟨earlier, last, hshown, -, hnames⟩ := h.last
  cases hv with
  | succeeded hc hu =>
    refine ⟨earlier, last, hshown, fun name hname => ?_⟩
    rw [hu] at hnames
    obtain ⟨o, ho, rfl⟩ | ⟨o, ho, -⟩ := hnames name hname
    · exact ⟨o, (h.collects.latest o).1 ho, (hc rfl).1 o ho⟩
    · cases ho

end FinishedPod

namespace Finishing

variable {f : Finishing} {shown : List PodSnapshot} {done : List Observation}

theorem Follows.sums (h : f.Follows shown) (hc : Collects f.containers done)
    {unfinished : List Observation} (hne : shown ≠ [])
    (hall : ∀ name ∈ f.watch.tracked,
      (∃ o ∈ f.containers, o.name = name) ∨ ∃ o ∈ unfinished, o.name = name) :
    FinishedPod.Sums ⟨f.watch.phase, f.containers, unfinished⟩ shown done := by
  refine ⟨hc, fun o ho => ?_, ?_⟩
  · obtain ⟨hstate, s, -, hmem⟩ := h.containers o ho
    exact ⟨hstate, PodSnapshot.exitCode_of_terminated hmem hstate⟩
  · obtain ⟨earlier, last, hshown, htracked, hphase⟩ := h.watch.exists_last hne
    rw [htracked] at hall
    exact ⟨earlier, last, hshown, hphase, hall⟩

theorem Follows.sums_of_remaining (h : f.Follows shown) (hc : Collects f.containers done)
    (hr : f.watch.remaining = false) :
    FinishedPod.Sums ⟨f.watch.phase, f.containers, []⟩ shown done := by
  obtain ⟨hseen, hmet⟩ := Watch.met_of_remaining hr
  refine h.sums hc (h.watch.seen hseen) fun name hname => ?_
  obtain ⟨o, ho, hm⟩ := hmet name hname
  left
  exact h.handedOut name o ho hm

theorem Follows.sums_of_terminal (h : f.Follows shown) (hc : Collects f.containers done)
    (hne : shown ≠ []) (hall : ∀ name ∈ f.watch.tracked, (f.watch.known.get? name).isSome) :
    FinishedPod.Sums ⟨f.watch.phase, f.containers, f.watch.pending⟩ shown done := by
  refine h.sums hc hne fun name hname => ?_
  obtain ⟨o, ho⟩ := Option.isSome_iff_exists.1 (hall name hname)
  cases hm : f.watch.goal.met o with
  | true =>
    left
    exact h.handedOut name o ho hm
  | false =>
    right
    refine ⟨o, ?_, (h.watch.known name o ho).1⟩
    exact List.mem_filter.2 ⟨List.mem_filterMap.2 ⟨name, hname, ho⟩, by simp [hm]⟩

end Finishing

/-! ## a run for which nothing has gone wrong -/

namespace Run

variable {setup : Setup σ} {step : StepDefinition} {spec : PodSpec} {past : List (RunEvent σ)}
  {r r' : Run} {w w' : World σ} {e : RunEvent σ}

/-- a run of a pod on its way to the wait for its end -/
def Ahead (spec : PodSpec) (r : Run) : Prop :=
  match r.phase with
  | .start => True
  | .creating s | .streaming s _ | .announcing s .. | .joining s none => s = spec
  | _ => False

theorem ahead_afterNotice (r : Run) (spec : PodSpec) (s : Streaming) (container : String)
    (now : Nat) : (r.afterNotice spec s container now).Ahead spec := by
  obtain hp | hp := phase_afterNotice r spec s container now <;> simp [Ahead, hp]

/-- How far such a run is, with the snapshots and the containers that it was handed. -/
inductive Stage (setup : Setup σ) (spec : PodSpec) (shown : List PodSnapshot)
    (done : List Observation) (r : Run) : Prop where
  | ahead (hp : r.Ahead spec) (hn : r.report = none) (hd : done = [])
  | waiting {f : Finishing} {earlier seen : List PodSnapshot} (hp : r.phase = .finishing spec f)
      (hn : r.report = none) (hs : shown = earlier ++ seen) (hf : f.Follows seen)
      (hc : Collects f.containers done)
  | reported {report : FinishedPod}
      (ho : r.outcome? = some (report.verdict? setup.config.checkExitCodes spec.ref.text))
      (hr : r.report = some report) (hs : report.Sums shown done)

/-- a run of `step` for which nothing has gone wrong -/
structure Going (setup : Setup σ) (step : StepDefinition) (spec : PodSpec)
    (past : List (RunEvent σ)) (r : Run) : Prop where
  same : r.step = step
  whole : r.extent = .whole
  failures : r.failures = []
  stage : Stage setup spec (past.flatMap (·.shown setup)) (past.flatMap (·.finished setup)) r

theorem going_begin (setup : Setup σ) (step : StepDefinition) (spec : PodSpec) :
    Going setup step spec [] { step } :=
  ⟨rfl, rfl, rfl, .ahead trivial rfl rfl⟩

theorem Stage.congr {shown : List PodSnapshot} {done : List Observation}
    (h : Stage setup spec shown done r) (hp : r'.phase = r.phase) (hr : r'.report = r.report) :
    Stage setup spec shown done r' := by
  have hout : r'.outcome? = r.outcome? := by simp only [outcome?, hp]
  cases h with
  | ahead ha hn hd => exact .ahead (by simpa only [Ahead, hp] using ha) (hr.trans hn) hd
  | waiting hp' hn hs hf hc => exact .waiting (hp.trans hp') (hr.trans hn) hs hf hc
  | reported ho hr' hs => exact .reported (hout.trans ho) (hr.trans hr') hs

variable {shown : List PodSnapshot} {done : List Observation}

theorem Stage.of_deleting (h : Stage setup spec shown done r) {pod : PodSpec}
    {outcome : Option RunError} (hp : r.phase = .deleting pod outcome) (now : Nat) :
    Stage setup spec shown done (r.goTo (.ended outcome) now) := by
  have hout : r.outcome? = some outcome := by simp only [outcome?, hp]
  cases h with
  | ahead ha => simp [Ahead, hp] at ha
  | waiting hp' =>
    rw [hp] at hp'
    cases hp'
  | reported ho hr hs => exact .reported (hout.symm.trans ho) hr hs

theorem Stage.of_early (h : Stage setup spec shown done r) (hp : r.isEarly = true) :
    r.Ahead spec ∧ r.report = none ∧ done = [] := by
  cases h with
  | ahead ha hn hd => exact ⟨ha, hn, hd⟩
  | waiting hp' => simp [isEarly, hp'] at hp
  | reported ho =>
    unfold outcome? at ho
    unfold isEarly at hp
    split at ho <;> simp_all

theorem Stage.of_finishing (h : Stage setup spec shown done r) {pod : PodSpec} {f : Finishing}
    (hp : r.phase = .finishing pod f) : pod = spec ∧ r.report = none ∧
      ∃ earlier seen, shown = earlier ++ seen ∧ f.Follows seen ∧ Collects f.containers done := by
  cases h with
  | ahead ha => simp [Ahead, hp] at ha
  | waiting hp' hn hs hf hc =>
    rw [hp] at hp'
    cases hp'
    exact ⟨rfl, hn, _, _, hs, hf, hc⟩
  | reported ho => simp [outcome?, hp] at ho

theorem stage_closeFinishing {report : FinishedPod} (hw : r.extent = .whole)
    (hs : report.Sums shown done) (now : Nat) :
    Stage setup spec shown done (r.closeFinishing setup spec report now) := by
  unfold closeFinishing
  simp only [hw]
  exact .reported rfl rfl hs

theorem stage_look (hw : r.extent = .whole) (hn : r.report = none) {f : Finishing}
    {earlier seen : List PodSnapshot} (hf : f.Follows seen) (hc : Collects f.containers done)
    {s : PodSnapshot} {watch : Watch} {outcome : Option Watch.Outcome}
    (hlook : f.watch.Answered s watch outcome) (now pause : Nat) {r' : Run}
    (hagain : outcome = none →
      r' = r.goToAfter (.finishing spec { f with watch, polls := f.polls + 1 }) now pause)
    (hlast : ∀ result, outcome = some result →
      r' = r.afterFinishing setup spec { f with watch } now result) :
    Stage setup spec (earlier ++ seen ++ [s]) (done ++ (f.watch.absorb s).2.toList) r' := by
  rw [List.append_assoc]
  cases hlook with
  | @handed o ho =>
    have hnext := hf.absorb_some ho 0
    have hcollect := hc.note o
    rw [hlast _ rfl, ho, Option.toList_some]
    unfold afterFinishing
    dsimp only
    split
    next => exact .waiting rfl hn rfl hnext hcollect
    next hr =>
      rw [Bool.not_eq_true] at hr
      exact stage_closeFinishing hw (hnext.sums_of_remaining hcollect hr).of_append now
  | nothingLeft hs hr =>
    have hnext := hf.absorb_none hs f.polls
    rw [hlast _ rfl, hs, Option.toList_none, List.append_nil]
    exact stage_closeFinishing hw (hnext.sums_of_remaining hc hr).of_append now
  | podFinished hs =>
    have hnext := hf.absorb_none hs f.polls
    have hall := Watch.known_of_absorb hs
    rw [hlast _ rfl, hs, Option.toList_none, List.append_nil]
    exact stage_closeFinishing hw (hnext.sums_of_terminal hc (by simp) hall).of_append now
  | again hs =>
    rw [hagain rfl, hs, Option.toList_none, List.append_nil]
    exact .waiting rfl hn rfl (hf.absorb_none hs (f.polls + 1)) hc

theorem Going.unshown (h : Going setup step spec past e.before) (hsmooth : e.Smooth)
    (hs : e.shown setup = []) (hstep : e.after.step = e.before.step)
    (hext : e.after.extent = e.before.extent)
    (hstage : ∀ shown done, Stage setup spec shown done e.before →
      Stage setup spec shown done e.after) : Going setup step spec (past ++ [e]) e.after := by
  refine ⟨hstep.trans h.same, hext.trans h.whole, hsmooth.streamed, ?_⟩
  rw [RunEvent.flatMap_concat_of_nil hs,
    RunEvent.flatMap_concat_of_nil (RunEvent.finished_of_shown hs)]
  exact hstage _ _ h.stage

theorem Going.ahead (h : Going setup step spec past e.before) (hsmooth : e.Smooth)
    (hp : e.before.isEarly = true) (hstep : e.after.step = e.before.step)
    (hext : e.after.extent = e.before.extent) (hreport : e.after.report = e.before.report)
    (ha : e.before.Ahead spec → e.after.Ahead spec) :
    Going setup step spec (past ++ [e]) e.after := by
  have hne (pod : PodSpec) (f : Finishing) : e.before.phase ≠ .finishing pod f := by
    intro hf
    simp [isEarly, hf] at hp
  obtain ⟨hahead, hn, hd⟩ := h.stage.of_early hp
  refine ⟨hstep.trans h.same, hext.trans h.whole, hsmooth.streamed, ?_⟩
  rw [RunEvent.flatMap_concat_of_nil (RunEvent.finished_of_phase setup hne), hd]
  exact .ahead (ha hahead) (hreport.trans hn) rfl

theorem Going.joined (h : Going setup step spec past e.before) (hsmooth : e.Smooth) {pod : PodSpec}
    {fatal : Option RunError} (hp : e.before.phase = .joining pod fatal)
    (hs : e.shown setup = []) {now : Nat}
    (hafter : e.after = e.before.afterJoining setup pod fatal now) :
    Going setup step spec (past ++ [e]) e.after := by
  obtain ⟨ha, hn, hd⟩ := h.stage.of_early (by simp [isEarly, hp])
  cases fatal with
  | some error => simp [Ahead, hp] at ha
  | none =>
    have hspec : pod = spec := by simpa only [Ahead, hp] using ha
    subst hspec
    have hgo : e.after = e.before.goTo (beginFinishing setup pod) now := by
      rw [hafter]
      simp only [afterJoining, logError?, h.failures, h.whole, List.isEmpty_nil, if_true]
    refine ⟨by rw [hgo]; exact h.same, by rw [hgo]; exact h.whole, hsmooth.streamed, ?_⟩
    rw [RunEvent.flatMap_concat_of_nil (RunEvent.finished_of_shown hs), hd, hgo]
    exact .waiting rfl hn (List.append_nil _).symm
      (Finishing.follows_begin pod.ref setup.config.pollLimit) collects_nil

theorem Going.look (h : Going setup step spec past e.before) (hsmooth : e.Smooth) {pod : PodSpec}
    {f : Finishing} (hp : e.before.phase = .finishing pod f) {watch : Watch}
    {outcome : Option Watch.Outcome} {warnings : List Warning}
    (ha : f.watch.answer f.polls (e.seen.fetch setup.platform pod.ref).1 =
      (watch, outcome, warnings))
    (hl : e.left = (e.seen.fetch setup.platform pod.ref).2.warn warnings)
    (hagain : outcome = none → e.after =
      e.before.goToAfter (.finishing pod { f with watch, polls := f.polls + 1 }) e.seen.now
        setup.config.pollInterval.toNat)
    (hlast : ∀ result, outcome = some result →
      e.after = e.before.afterFinishing setup pod { f with watch } e.seen.now result) :
    Going setup step spec (past ++ [e]) e.after := by
  obtain ⟨rfl, hn, earlier, seen, hs, hf, hc⟩ := h.stage.of_finishing hp
  obtain ⟨snapshot, hshown, hlook⟩ := hsmooth.look ha hl
  have hkept : e.after.step = e.before.step ∧ e.after.extent = e.before.extent := by
    cases outcome with
    | none =>
      rw [hagain rfl]
      exact ⟨rfl, rfl⟩
    | some result =>
      obtain ⟨-, hstep, hext, -⟩ :=
        afterFinishing_spec setup e.before pod { f with watch } e.seen.now result h.whole
      rw [hlast result rfl]
      exact ⟨hstep, hext⟩
  refine ⟨hkept.1.trans h.same, hkept.2.trans h.whole, hsmooth.streamed, ?_⟩
  rw [RunEvent.flatMap_concat, RunEvent.flatMap_concat, hshown, hs,
    RunEvent.finished_of_look hp hshown]
  exact stage_look h.whole hn hf hc hlook _ _ hagain hlast

theorem Going.transition (h : Going setup step spec past e.before)
    (hb : setup.build step = .spec spec) (hsmooth : e.Smooth)
    (ht : Transition setup e.before e.seen e.after e.left) :
    Going setup step spec (past ++ [e]) e.after := by
  have hunc := hsmooth.uncancelled
  rw [← h.same] at hb
  obtain ⟨task, r, w, r', w'⟩ := e
  have ht : Transition setup r w r' w' := ht
  cases ht with
  | cancelledEarly _ hc => exact absurd (hunc.symm.trans hc) Bool.false_ne_true
  | cancelled _ hc => exact absurd (hunc.symm.trans hc) Bool.false_ne_true
  | buildPanicked _ _ hb' =>
    have hne := hb.symm.trans hb'
    cases hne
  | buildRefused _ _ hb' =>
    have hne := hb.symm.trans hb'
    cases hne
  | built hp _ hb' =>
    have hsame := hb.symm.trans hb'
    cases hsame
    exact h.ahead hsmooth (by simp [isEarly, hp]) rfl rfl rfl fun _ => rfl
  | asked => exact h.unshown hsmooth (RunEvent.shown_of_no_call rfl) rfl rfl fun _ _ hs =>
      hs.congr rfl rfl
  | createRefused => exact absurd rfl (hsmooth.created_of_call rfl)
  | @created pod _ _ hp =>
    refine h.ahead hsmooth (by simp [isEarly, hp]) rfl rfl rfl fun ha => ?_
    have hspec : pod = spec := by simpa only [Ahead, hp] using ha
    exact hspec
  | @streamingLook pod s watch outcome _ hp _ _ ha =>
    obtain ⟨-, hstep, hext, hreport, -⟩ := afterStreaming_spec r pod { s with watch } w.now outcome
    refine h.ahead hsmooth (by simp [isEarly, hp]) hstep hext hreport fun hahead => ?_
    have hspec : pod = spec := by simpa only [Ahead, hp] using hahead
    -- an error that ends the streaming would be one of a look
    obtain ⟨snapshot, -, hlook⟩ := hsmooth.look ha rfl
    cases hlook with
    | handed | nothingLeft | podFinished => exact hspec
  | @streamingAgain pod _ _ _ hp =>
    refine h.ahead hsmooth (by simp [isEarly, hp]) rfl rfl rfl fun ha => ?_
    have hspec : pod = spec := by simpa only [Ahead, hp] using ha
    exact hspec
  | @announced pod s container hp =>
    obtain ⟨-, hstep, hext, hreport, -⟩ := afterNotice_spec r pod s container w.now
    refine h.ahead hsmooth (by simp [isEarly, hp]) hstep hext hreport fun ha => ?_
    have hspec : pod = spec := by simpa only [Ahead, hp] using ha
    subst hspec
    exact ahead_afterNotice r pod s container w.now
  | joinedPanicked =>
    have hnil : r.failures ++ [_] = [] := hsmooth.streamed
    simp at hnil
  | joined => exact h.unshown hsmooth (RunEvent.shown_of_no_call rfl) rfl rfl fun _ _ hs =>
      hs.congr rfl rfl
  | joinedAll hp =>
    refine h.joined hsmooth hp (RunEvent.shown_of_no_call ?_) rfl
    dsimp only
    split <;> rfl
  | finishingLook hp _ _ ha =>
    refine h.look hsmooth hp ha rfl (by simp) fun result heq => ?_
    cases heq
    rfl
  | finishingAgain hp _ _ ha => exact h.look hsmooth hp ha rfl (fun _ => rfl) (by simp)
  | deleteRefused hp | deleted hp =>
    exact h.unshown hsmooth (RunEvent.shown_of_deleted rfl) rfl rfl fun _ _ hs =>
      hs.of_deleting hp w.now

/-- **What each step keeps** at which nothing goes wrong. -/
theorem Going.event (h : Going setup step spec past e.before) (hb : setup.build step = .spec spec)
    (hsmooth : e.Smooth) (hv : e.Valid setup) : Going setup step spec (past ++ [e]) e.after := by
  unfold RunEvent.Valid at hv
  split at hv
  · exact h.transition hb hsmooth (transition_of_act hv)
  · obtain ⟨t, result, -, ht, hleft, hafter⟩ := transition_of_actTask hv
    refine h.unshown hsmooth ?_ (by rw [hafter]) (by rw [hafter]) fun _ _ hs =>
      hs.congr (by rw [hafter]) (by rw [hafter])
    obtain hcalls | hcalls := ht.calls.2
    · exact RunEvent.shown_of_no_call (by rw [hleft]; exact hcalls)
    · exact RunEvent.shown_of_opened (by rw [hleft]; exact hcalls)

theorem Going.report (h : Going setup step spec past r) (hover : r.isOver = true) :
    ∃ report, r.report = some report ∧
      r.phase = .ended (report.verdict? setup.config.checkExitCodes spec.ref.text) ∧
      report.Sums (past.flatMap (·.shown setup)) (past.flatMap (·.finished setup)) := by
  cases h.stage with
  | ahead ha =>
    unfold isOver at hover
    unfold Ahead at ha
    split at hover <;> simp_all
  | waiting hp => simp [isOver, hp] at hover
  | reported ho hr hs =>
    refine ⟨_, hr, ?_, hs⟩
    unfold isOver at hover
    unfold outcome? at ho
    split at hover <;> simp_all

end Run

/-! ## every schedule -/

namespace Crew

variable {setup : Setup σ} {c : Crew σ} {i : Nat} {step : StepDefinition} {spec : PodSpec}

/-- **The verdict on a step.**  A run for which nothing goes wrong is never stuck and makes no more
steps than its waits take, and it ends with what its report means: the first container that failed,
or else a failed pod, or else containers left behind, or else nothing.  The report holds each
container that the wait for the end of the pod was handed once, as it was handed over last,
terminated and with an exit code; and what the last snapshot lists is in it or is left behind.  So
success with exit codes checked answers for all that the last snapshot lists. -/
theorem verdict_of_play (hr : c.runs[i]? = some { step }) (hb : setup.build step = .spec spec)
    (hroom : 0 < c.world.channel.room) (moves : List Move)
    (hsmooth : ∀ e ∈ c.events setup i moves, e.Smooth) :
    let last := c.play setup moves
    let shown := (c.events setup i moves).flatMap (·.shown setup)
    let done := (c.events setup i moves).flatMap (·.finished setup)
    ∃ r, last.runs[i]? = some r ∧ Run.Frugal setup (c.events setup i moves) r ∧
      (r.isOver = false → (∃ a, (last.act setup a).isSome = true) ∨ last.tick.isSome = true) ∧
      (r.isOver = true → ∃ report outcome earlier latest,
        r.report = some report ∧ r.phase = .ended outcome ∧
        report.Verdict setup.config.checkExitCodes spec.ref.text outcome ∧
        (report.containers.map (·.name)).Nodup ∧
        (∀ o ∈ report.containers, o.state = .terminated ∧ ∃ code, o.exitCode = some code) ∧
        (∀ o, o ∈ report.containers ↔ latest? done o.name = some o) ∧
        shown = earlier ++ [latest] ∧ report.phase = latest.phase ∧
        (∀ name ∈ latest.names,
          (∃ o ∈ report.containers, o.name = name) ∨ ∃ o ∈ report.unfinished, o.name = name) ∧
        (setup.config.checkExitCodes = true → outcome = none →
          ∀ name ∈ latest.names, ∃ o, latest? done name = some o ∧ o.exitCode = some 0)) := by
  intro last shown done
  obtain ⟨r, hr', hfrugal⟩ := frugal_of_play setup hr moves
  refine ⟨r, hr', hfrugal, able_of_room (by rw [room_play]; exact hroom) hr', fun hover => ?_⟩
  obtain ⟨s, hs, hgoing⟩ := play_induction_of (Q := Run.Going setup step spec)
    (fun _ _ hgood h hv => h.event hb hgood hv) moves hsmooth hr (Run.going_begin setup step spec)
  rw [hr', Option.some.injEq] at hs
  subst hs
  obtain ⟨report, hreport, hphase, hsums⟩ := hgoing.report hover
  have hverdict : report.Verdict setup.config.checkExitCodes spec.ref.text _ :=
    FinishedPod.verdict_of_verdict? fun o ho => (hsums.terminated o ho).2
  obtain ⟨earlier, latest, hshown, hlast, hnames⟩ := hsums.last
  refine ⟨report, _, earlier, latest, hreport, hphase, hverdict, hsums.collects.names,
    hsums.terminated, hsums.collects.latest, hshown, hlast, hnames, fun hcheck hnone => ?_⟩
  rw [hcheck] at hverdict hnone
  rw [hnone] at hverdict
  obtain ⟨earlier', latest', hshown', hall⟩ := hsums.endedWell hverdict
  obtain ⟨-, hsame⟩ := List.append_inj' (hshown.symm.trans hshown') rfl
  obtain rfl := List.singleton_inj.1 hsame
  exact hall

/-- two containers, of which the second one fails -/
theorem verdict_of_failing :
    let spec : PodSpec :=
      { name := "p", namespaceName := "ns"
        containers := [{ name := "a", image := "i" }, { name := "b", image := "i" }] }
    let setup : Setup (List PodSnapshot) := ⟨replay, {}, fun _ => .spec spec⟩
    let ready : PodSnapshot :=
      { phase := .running, statuses := [.running "a" true, .running "b" true] }
    let half : PodSnapshot :=
      { phase := .running, statuses := [.terminated "a" 0, .running "b" true] }
    let last : PodSnapshot :=
      { phase := .failed, statuses := [.terminated "a" 0, .terminated "b" 3] }
    let c := ofRuns [{ step := { name := "s", image := "i" } }]
      { state := [ready, ready, half, last], channel := { room := 9 } } none
    let run (times : Nat) : List Move := List.replicate times (.act (.run 0))
    let tasks : List Move := (List.replicate 3 [0, 1]).flatten.map fun id => .act (.logTask 0 id)
    let moves := run 9 ++ tasks ++ run 9
    ∃ r report, (c.play setup moves).runs[0]? = some r ∧ r.report = some report ∧
      report.containers.map (fun o => (o.name, o.exitCode)) = [("a", some 0), ("b", some 3)] ∧
      r.phase = .ended (some (.containerFailed "ns/p" "b" 3)) := by
  intro spec setup ready half last c run tasks moves
  have hgood : (c.events setup 0 moves).all (fun e => !e.seen.cancelled &&
      e.calls.all (fun call => call.event != .created false && call.event != .fetched false) &&
      !e.warned.contains .pollLimitExceeded && e.after.failures.isEmpty) = true := by
    decide +kernel
  have hsmooth : ∀ e ∈ c.events setup 0 moves, e.Smooth := by
    intro e he
    have hall := List.all_eq_true.1 hgood e he
    simp only [Bool.and_eq_true, Bool.not_eq_true', List.all_eq_true, bne_iff_ne,
      List.isEmpty_iff] at hall
    obtain ⟨⟨⟨hunc, hcalls⟩, hlimit⟩, hfail⟩ := hall
    exact ⟨hunc, fun call hcall => (hcalls call hcall).1, fun call hcall => (hcalls call hcall).2,
      by simpa using hlimit, hfail⟩
  obtain ⟨r, hr, -, -, hends⟩ :=
    verdict_of_play (c := c) (i := 0) rfl rfl (by decide) moves hsmooth
  have hend : (c.play setup moves).runs[0]?.any (fun r => r.isOver &&
      r.report.any fun report => report.containers.map (fun o => (o.name, o.exitCode)) =
        [("a", some 0), ("b", some 3)]) = true := by decide +kernel
  rw [hr, Option.any_some, Bool.and_eq_true] at hend
  obtain ⟨report, outcome, -, -, hreport, hphase, hverdict, -⟩ := hends hend.1
  have hcodes : report.containers.map (fun o => (o.name, o.exitCode)) =
      [("a", some 0), ("b", some 3)] := by simpa [hreport] using hend.2
  refine ⟨r, report, hr, hreport, hcodes, ?_⟩
  have hsecond : ∃ o ∈ report.containers, o.exitCode ≠ some 0 := by
    obtain ⟨o, ho, heq⟩ := List.mem_map.1
      (show ("b", some (3 : Int32)) ∈ report.containers.map fun o => (o.name, o.exitCode) by
        simp [hcodes])
    refine ⟨o, ho, ?_⟩
    rw [(Prod.mk.inj heq).2]
    decide
  obtain ⟨o, ho, hne⟩ := hsecond
  rw [hphase]
  cases hverdict with
  | podFailed _ hall => exact absurd (hall o ho) hne
  | podFinished hc => exact absurd ((hc rfl).1 o ho) hne
  | succeeded hc => exact absurd ((hc rfl).1 o ho) hne
  | @containerFailed before after x code _ hs hb hx hn =>
    -- the first container has ended well, so it is the second one
    rw [hs, List.map_append, List.map_cons] at hcodes
    match before, hcodes with
    | [], hcodes =>
      have hfirst := (Prod.mk.inj (List.cons.inj hcodes).1).2
      rw [hx] at hfirst
      exact absurd (Option.some.inj hfirst) hn
    | [_], hcodes =>
      obtain ⟨hname, hcode⟩ := Prod.mk.inj (List.cons.inj (List.cons.inj hcodes).2).1
      rw [hx] at hcode
      rw [hname, Option.some.inj hcode]
      rfl
    | _ :: _ :: _, hcodes => simp at hcodes

end Crew

end StepRunner
