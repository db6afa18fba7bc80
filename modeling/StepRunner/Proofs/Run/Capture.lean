import StepRunner.Proofs.Run.Output
import StepRunner.Proofs.Wait.Scan

/-!
# Whose logs are captured

The wait for containers to be ready has three ends without an error: all of them were handed out,
none is left, or the pod has come to its end.  After each of them there is a log task for every
container that the last snapshot shows started, handed out or not, and there is none, then or later,
for a container that was never handed out and was last seen before its start.

* `Streaming.Tells`        a wait that has handed out what it knows to be ready
* `PodSnapshot.Covered`    a last snapshot whose started containers have log tasks, and only those
* `covered_of_remaining`   so it is where nothing is left to wait for
* `covered_of_pending`     so it is where the pod has come to its end
* `Run.Survey`             a run in this wait, or behind it
* `captured_of_play`       what the end of the wait leaves behind
-/

namespace StepRunner

variable {σ : Type}

theorem Observation.hasStarted_iff {o : Observation} :
    o.hasStarted = true ↔ o.state = .running ∨ o.state = .terminated := by
  cases hs : o.state <;> simp [hasStarted, hs]

/-! ## the wait under way -/

/-- a wait for containers to be ready that has handed out all that it knows to be ready -/
structure Streaming.Tells (s : Streaming) (shown : List PodSnapshot) (handed : List String) :
    Prop where
  follows : s.watch.Follows shown
  handed : ∃ out, s.watch.HandedOut out ∧ ∀ o ∈ out, o.name ∈ handed

/-- A last snapshot of this wait.  What it shows of a container last is what counts: the containers
that have started were handed out or are captured late, and no others are captured late. -/
structure PodSnapshot.Covered (last : PodSnapshot) (handed late : List String) : Prop where
  started : ∀ name o, latest? last.observations name = some o → o.hasStarted = true →
    name ∈ handed ∨ name ∈ late
  late : ∀ name ∈ late, ∃ o, latest? last.observations name = some o ∧ o.hasStarted = true

namespace Streaming

variable {s : Streaming} {shown : List PodSnapshot} {handed : List String}

theorem tells_begin (pod : PodRef) (limit : Nat) :
    ({ watch := .begin pod .ready limit } : Streaming).Tells [] [] :=
  ⟨Watch.follows_begin pod .ready limit, [], Watch.handedOut_begin pod .ready limit, by simp⟩

theorem Tells.mem_handed (h : s.Tells shown handed) {name : String} {o : Observation}
    (ho : s.watch.known.get? name = some o) (hm : s.watch.goal.met o = true) : name ∈ handed := by
  obtain ⟨out, hout, hnames⟩ := h.handed
  obtain ⟨o', ho', rfl⟩ := hout name o ho hm
  exact hnames o' ho'

theorem Tells.absorb_none (h : s.Tells shown handed) {snapshot : PodSnapshot}
    (hs : (s.watch.absorb snapshot).2 = none) (polls : Nat) :
    ({ s with watch := (s.watch.absorb snapshot).1, polls } : Streaming).Tells
      (shown ++ [snapshot]) handed := by
  obtain ⟨out, hout, hnames⟩ := h.handed
  exact ⟨h.follows.absorb snapshot, out, hout.absorb_none hs, hnames⟩

theorem Tells.absorb_some (h : s.Tells shown handed) {snapshot : PodSnapshot} {o : Observation}
    (hs : (s.watch.absorb snapshot).2 = some o) (polls : Nat) :
    ({ s with watch := (s.watch.absorb snapshot).1, polls } : Streaming).Tells
      (shown ++ [snapshot]) (handed ++ [o.name]) := by
  obtain ⟨out, hout, hnames⟩ := h.handed
  refine ⟨h.follows.absorb snapshot, out ++ [o], hout.absorb_some hs ?_ ?_, ?_⟩
  · exact ⟨o, List.mem_append_right out List.mem_cons_self, rfl⟩
  · rintro name ⟨o', ho', hname⟩
    exact ⟨o', List.mem_append_left _ ho', hname⟩
  · intro o' ho'
    rw [List.mem_append, List.mem_singleton] at ho' ⊢
    obtain ho' | rfl := ho'
    · exact .inl (hnames o' ho')
    · exact .inr rfl

theorem Tells.covered_of_remaining (h : s.Tells shown handed) (hr : s.watch.remaining = false) :
    ∃ earlier last, shown = earlier ++ [last] ∧ last.Covered handed [] := by
  obtain ⟨hseen, hmet⟩ := Watch.met_of_remaining hr
  obtain ⟨earlier, last, hshown, htracked, -⟩ := h.follows.exists_last (h.follows.seen hseen)
  refine ⟨earlier, last, hshown, ?_, by simp⟩
  intro name o ho _
  obtain ⟨hmem, hname⟩ := mem_of_latest? ho
  have hlisted : name ∈ s.watch.tracked := by
    rw [htracked]
    exact PodSnapshot.mem_names.2 ⟨o, hmem, hname⟩
  -- what is known of the container may be older than the last snapshot, but it was ready then
  obtain ⟨known, hknown, hready⟩ := hmet name hlisted
  left
  exact h.mem_handed hknown hready

/-- Where the pod has come to its end, those that were not handed out are pending, and the last
snapshot is what is known of them. -/
theorem Tells.covered_of_pending (h : s.Tells shown handed) {snapshot : PodSnapshot}
    (hs : (s.watch.absorb snapshot).2 = none) (hstreamed : ∀ name ∈ s.streamed, name ∈ handed) :
    snapshot.Covered handed (lateNames s.streamed (s.watch.absorb snapshot).1.pending) := by
  have hnext : ({ s with watch := (s.watch.absorb snapshot).1 } : Streaming).Tells
      (shown ++ [snapshot]) handed := h.absorb_none hs s.polls
  have htracked : (s.watch.absorb snapshot).1.tracked = snapshot.names := rfl
  constructor
  · intro name o ho hstarted
    obtain ⟨hmem, hname⟩ := mem_of_latest? ho
    have hknown := Watch.get?_absorb_of_latest? hs ho
    cases hmet : (s.watch.absorb snapshot).1.goal.met o with
    | true =>
      left
      exact hnext.mem_handed hknown hmet
    | false =>
      have hpending : o ∈ (s.watch.absorb snapshot).1.pending := by
        refine Watch.mem_pending.2 ⟨⟨name, ?_, hknown⟩, hmet⟩
        rw [htracked]
        exact PodSnapshot.mem_names.2 ⟨o, hmem, hname⟩
      by_cases hdone : name ∈ s.streamed
      · left
        exact hstreamed name hdone
      · right
        exact mem_lateNames.2 ⟨hdone, o, hpending, hname, hstarted⟩
  · intro name hlate
    obtain ⟨-, o, hpending, rfl, hstarted⟩ := mem_lateNames.1 hlate
    obtain ⟨⟨name, hname, hknown⟩, -⟩ := Watch.mem_pending.1 hpending
    rw [htracked] at hname
    obtain ⟨x, hx, rfl⟩ := PodSnapshot.mem_names.1 hname
    obtain ⟨last, hlast⟩ := exists_latest? hx
    have hsame : o = last := by
      have hget := Watch.get?_absorb_of_latest? hs hlast
      rw [hknown] at hget
      exact Option.some.inj hget
    subst hsame
    rw [(mem_of_latest? hlast).2]
    exact ⟨o, hlast, hstarted⟩

end Streaming

/-! ## a run in the wait -/

namespace Run

variable {setup : Setup σ} {past : List (RunEvent σ)} {r : Run} {e : RunEvent σ} {name : String}

/-- the wait for containers to be ready, while it is under way -/
def ready? (r : Run) : Option Streaming :=
  match r.phase with
  | .streaming _ s | .announcing _ s _ => some s
  | _ => none

/-- the error that has ended this wait, if any, while log tasks are joined -/
def joining? (r : Run) : Option (Option RunError) :=
  match r.phase with
  | .joining _ fatal => some fatal
  | _ => none

theorem exists_of_joining? {fatal : Option RunError} (h : r.joining? = some fatal) :
    ∃ spec, r.phase = .joining spec fatal := by
  unfold joining? at h
  split at h
  next spec fatal' hp =>
    cases h
    exact ⟨spec, hp⟩
  next => cases h

/-- A run that waits for containers to be ready, or that has, against its steps so far. -/
structure Survey (setup : Setup σ) (past : List (RunEvent σ)) (r : Run) : Prop where
  roster : Roster setup past r
  waiting : ∀ s, r.ready? = some s →
    s.Tells (past.flatMap (·.shown setup)) (past.flatMap (·.handed))
  leaving : ∀ spec, r.phase = .joining spec none →
    ∃ earlier last, past.flatMap (·.shown setup) = earlier ++ [last] ∧
      last.Covered (past.flatMap (·.handed)) (past.flatMap (·.late setup))

theorem survey_begin {spec : PodSpec} (hp : r.phase = beginStreaming setup spec) :
    Survey setup [] r := by
  refine ⟨roster_begin hp, fun s hs => ?_, fun pod hj => ?_⟩
  · simp only [ready?, hp, beginStreaming, Option.some.injEq] at hs
    subst hs
    exact Streaming.tells_begin spec.ref setup.config.pollLimit
  · rw [hp] at hj
    cases hj

theorem Survey.leave (h : Survey setup past e.before) (hv : e.Valid setup)
    (hr : e.after.ready? = none) (hj : ∀ spec, e.after.phase ≠ .joining spec none) :
    Survey setup (past ++ [e]) e.after := by
  refine ⟨h.roster.event hv, fun s hs => ?_, fun spec hp => absurd hp (hj spec)⟩
  rw [hr] at hs
  cases hs

theorem ready?_of_not_early (h : r.isEarly = false) :
    r.ready? = none ∧ ∀ spec fatal, r.phase ≠ .joining spec fatal := by
  unfold isEarly at h
  unfold ready?
  split at h <;> simp_all

theorem Survey.behind (h : Survey setup past e.before) (hv : e.Valid setup)
    (hearly : e.after.isEarly = false) : Survey setup (past ++ [e]) e.after := by
  obtain ⟨hr, hj⟩ := ready?_of_not_early hearly
  exact h.leave hv hr fun spec => hj spec none

theorem Survey.still (h : Survey setup past e.before) (hv : e.Valid setup)
    (hp : e.after.phase = e.before.phase) (hs : e.shown setup = []) :
    Survey setup (past ++ [e]) e.after := by
  obtain ⟨hh, -, hl⟩ := RunEvent.quiet_of_phase setup hp
  refine ⟨h.roster.event hv, ?_, ?_⟩
  · rw [RunEvent.flatMap_concat_of_nil hs, RunEvent.flatMap_concat_of_nil hh]
    simpa only [ready?, hp] using h.waiting
  · rw [RunEvent.flatMap_concat_of_nil hs, RunEvent.flatMap_concat_of_nil hh,
      RunEvent.flatMap_concat_of_nil hl, hp]
    exact h.leaving

theorem Survey.look (h : Survey setup past e.before) (hv : e.Valid setup) {spec : PodSpec}
    {s : Streaming} (hp : e.before.phase = .streaming spec s) {watch : Watch}
    {outcome : Option Watch.Outcome} {warnings : List Warning}
    (ha : s.watch.answer s.polls (e.seen.fetch setup.platform spec.ref).1 =
      (watch, outcome, warnings))
    (hc : e.left.calls = (e.seen.fetch setup.platform spec.ref).2.calls)
    (hagain : outcome = none →
      e.after.phase = .streaming spec { s with watch, polls := s.polls + 1 })
    (hlast : ∀ result, outcome = some result → e.after.phase =
      (e.before.afterStreaming spec { s with watch } e.seen.now result).phase) :
    Survey setup (past ++ [e]) e.after := by
  have hroster' := h.roster.event hv
  have htells := h.waiting s (by simp only [ready?, hp])
  have hshown : (past ++ [e]).flatMap (·.shown setup) = past.flatMap (·.shown setup) ++
      (e.seen.fetch setup.platform spec.ref).1.toOption.toList := by
    rw [RunEvent.flatMap_concat, RunEvent.shown_of_fetch hc]
  have hlate : past.flatMap (·.late setup) = [] := (h.roster.handing.of_streaming hp).2.1
  have hstreamed : ∀ name ∈ s.streamed, name ∈ past.flatMap (·.handed) := by
    obtain ⟨hn, -, hs, -⟩ := h.roster.handing.of_streaming hp
    intro name hname
    rw [hs, List.mem_reverse] at hname
    rw [hn]
    exact hname
  have hlook := Watch.look_of_answer ha
  generalize hanswer : (e.seen.fetch setup.platform spec.ref).1 = answer at hlook hshown
  cases hlook with
  | refused error =>
    have hphase := hlast _ rfl
    exact h.leave hv (by simp only [ready?, hphase]; rfl) fun pod hj => by
      rw [hphase] at hj
      cases hj
  | limitReached =>
    have hphase := hlast _ rfl
    exact h.leave hv (by simp only [ready?, hphase]; rfl) fun pod hj => by
      rw [hphase] at hj
      cases hj
  | @handed snapshot o hs =>
    have hphase : e.after.phase =
        .announcing spec { s with watch := (s.watch.absorb snapshot).1 } o.name := hlast _ rfl
    have hh : e.handed = [o.name] := by simp only [RunEvent.handed, hp, hphase]
    refine ⟨hroster', fun s' hs' => ?_, fun pod hj => ?_⟩
    · simp only [ready?, hphase, Option.some.injEq] at hs'
      subst hs'
      rw [hshown, RunEvent.flatMap_concat, hh]
      exact htells.absorb_some hs s.polls
    · rw [hphase] at hj
      cases hj
  | @again snapshot hs =>
    have hphase := hagain rfl
    have hh : e.handed = [] := by simp only [RunEvent.handed, hp, hphase]
    refine ⟨hroster', fun s' hs' => ?_, fun pod hj => ?_⟩
    · simp only [ready?, hphase, Option.some.injEq] at hs'
      subst hs'
      rw [hshown, RunEvent.flatMap_concat_of_nil hh]
      exact htells.absorb_none hs (s.polls + 1)
    · rw [hphase] at hj
      cases hj
  | @nothingLeft snapshot hs hr =>
    have hphase : e.after.phase = .joining spec none := hlast _ rfl
    have hh : e.handed = [] := by simp only [RunEvent.handed, hp, hphase]
    have hl : e.late setup = [] := by
      rw [RunEvent.late_of_streaming hp ha hphase, Watch.pending_of_remaining hr]
      rfl
    refine ⟨hroster', fun s' hs' => ?_, fun pod _ => ?_⟩
    · simp [ready?, hphase] at hs'
    · rw [hshown, RunEvent.flatMap_concat_of_nil hh, RunEvent.flatMap_concat_of_nil hl, hlate]
      exact (htells.absorb_none hs s.polls).covered_of_remaining hr
  | @podFinished snapshot hs =>
    have hphase : e.after.phase = .joining spec none := hlast _ rfl
    have hh : e.handed = [] := by simp only [RunEvent.handed, hp, hphase]
    have hl := RunEvent.late_of_streaming hp ha hphase
    refine ⟨hroster', fun s' hs' => ?_, fun pod _ => ?_⟩
    · simp [ready?, hphase] at hs'
    · rw [hshown, RunEvent.flatMap_concat_of_nil hh, RunEvent.flatMap_concat, hlate, hl]
      exact ⟨_, snapshot, rfl, htells.covered_of_pending hs hstreamed⟩

theorem Survey.announce (h : Survey setup past e.before) (hv : e.Valid setup) {spec : PodSpec}
    {s : Streaming} {container : String} (hp : e.before.phase = .announcing spec s container)
    (hc : e.left.calls = e.seen.calls)
    (hphase : e.after.phase = if s.watch.remaining then
      .streaming spec { s with polls := 0, streamed := container :: s.streamed }
      else .joining spec none) : Survey setup (past ++ [e]) e.after := by
  have htells := h.waiting s (by simp only [ready?, hp])
  have hshown : (past ++ [e]).flatMap (·.shown setup) = past.flatMap (·.shown setup) :=
    RunEvent.flatMap_concat_of_nil (RunEvent.shown_of_no_call hc)
  have hhanded : (past ++ [e]).flatMap (·.handed) = past.flatMap (·.handed) :=
    RunEvent.flatMap_concat_of_nil (by simp only [RunEvent.handed, hp])
  have hlate : (past ++ [e]).flatMap (·.late setup) = [] := by
    rw [RunEvent.flatMap_concat_of_nil (by simp only [RunEvent.late, hp])]
    exact (h.roster.handing.of_announcing hp).2.1
  refine ⟨h.roster.event hv, fun s' hs' => ?_, fun pod hj => ?_⟩
  · rw [hshown, hhanded]
    cases hr : s.watch.remaining with
    | true =>
      rw [hr, if_pos rfl] at hphase
      simp only [ready?, hphase, Option.some.injEq] at hs'
      subst hs'
      exact ⟨htells.follows, htells.handed⟩
    | false =>
      rw [hr] at hphase
      simp [ready?, hphase] at hs'
  · rw [hshown, hhanded, hlate]
    cases hr : s.watch.remaining with
    | true =>
      rw [hr, if_pos rfl, hj] at hphase
      cases hphase
    | false => exact htells.covered_of_remaining hr

/-- **What each step keeps.** -/
theorem Survey.event (h : Survey setup past e.before) (hv : e.Valid setup) :
    Survey setup (past ++ [e]) e.after := by
  have hearly : e.before.isEarly = e.before.streamed?.isSome := h.roster.handing.isEarly_eq
  have hvalid := hv
  unfold RunEvent.Valid at hv
  split at hv
  next =>
    obtain ⟨task, r, w, r', w'⟩ := e
    have ht : Transition setup r w r' w' := transition_of_act hv
    cases ht with
    -- these steps are made before logs are streamed only
    | cancelledEarly hp | buildPanicked hp | buildRefused hp | built hp | createRefused hp
    | created hp => simp [isEarly, streamed?, hp] at hearly
    | asked | joinedPanicked | joined => exact h.still hvalid rfl (RunEvent.shown_of_no_call rfl)
    | cancelled => exact h.behind hvalid rfl
    | streamingLook hp _ _ ha =>
      exact h.look hvalid hp ha rfl (by simp) fun result heq => by
        cases heq
        rfl
    | streamingAgain hp _ _ ha => exact h.look hvalid hp ha rfl (fun _ => rfl) (by simp)
    | announced hp => exact h.announce hvalid hp rfl rfl
    | @joinedAll spec fatal =>
      exact h.behind hvalid (afterJoining_kept setup r spec fatal w.now).1
    | @finishingLook spec f watch outcome =>
      exact h.behind hvalid (afterFinishing_kept setup r spec { f with watch } w.now outcome).1
    | finishingAgain => exact h.behind hvalid rfl
    | deleteRefused => exact h.behind hvalid rfl
    | deleted => exact h.behind hvalid rfl
  next =>
    obtain ⟨t, result, -, ht, hleft, hafter⟩ := transition_of_actTask hv
    refine h.still hvalid (by rw [hafter]) ?_
    obtain hcalls | hcalls := ht.calls.2
    · exact RunEvent.shown_of_no_call (by rw [hleft]; exact hcalls)
    · exact RunEvent.shown_of_opened (by rw [hleft]; exact hcalls)

/-! ## log tasks -/

/-- when the wait is over, it does not begin again, and no more log tasks are started -/
theorem Roster.ready?_event (h : Roster setup past e.before) (hv : e.Valid setup)
    (hr : e.before.ready? = none) : e.after.ready? = none ∧ e.forked setup = [] := by
  have hearly := h.handing.isEarly_eq
  have hforked : e.forked setup = [] := by
    unfold ready? at hr
    unfold RunEvent.forked RunEvent.noticed RunEvent.late
    split at hr <;> simp_all
  refine ⟨?_, hforked⟩
  unfold RunEvent.Valid at hv
  split at hv
  next =>
    obtain ⟨task, r, w, r', w'⟩ := e
    have ht : Transition setup r w r' w' := transition_of_act hv
    cases ht with
    | cancelledEarly hp | buildPanicked hp | buildRefused hp | built hp | createRefused hp
    | created hp => simp [isEarly, streamed?, hp] at hearly
    | asked | joinedPanicked | joined => exact hr
    | streamingLook hp | streamingAgain hp | announced hp => simp [ready?, hp] at hr
    | cancelled | finishingAgain | deleteRefused | deleted => rfl
    | @joinedAll spec fatal =>
      exact (ready?_of_not_early (afterJoining_kept setup r spec fatal w.now).1).1
    | @finishingLook spec f watch outcome =>
      exact (ready?_of_not_early
        (afterFinishing_kept setup r spec { f with watch } w.now outcome).1).1
  next =>
    obtain ⟨t, result, -, -, -, hafter⟩ := transition_of_actTask hv
    rw [hafter]
    exact hr

/-- Of which containers there has been a log task: of those that a step has started one for. -/
theorem Streamed.task_iff {step : String} (h : Streamed setup step past e.before)
    (hv : e.Valid setup)
    (hiff : (∃ x ∈ past, ∃ t ∈ x.after.tasks, t.container = name) ↔
      name ∈ past.flatMap (·.forked setup)) :
    (∃ x ∈ past ++ [e], ∃ t ∈ x.after.tasks, t.container = name) ↔
      name ∈ (past ++ [e]).flatMap (·.forked setup) := by
  rw [RunEvent.flatMap_concat, List.mem_append]
  constructor
  · rintro ⟨x, hx, t, ht, rfl⟩
    obtain hx | hx := List.mem_append.1 hx
    · left
      exact hiff.1 ⟨x, hx, t, ht, rfl⟩
    · obtain rfl := List.mem_singleton.1 hx
      obtain ⟨-, -, all, hstaff, -⟩ := h.event hv
      rw [← List.mem_append, ← RunEvent.flatMap_concat, ← hstaff.names]
      exact List.mem_map_of_mem (hstaff.live.subset ht)
  · rintro (hname | hname)
    · obtain ⟨x, hx, htask⟩ := hiff.2 hname
      exact ⟨x, List.mem_append_left _ hx, htask⟩
    · refine ⟨e, List.mem_append_right past List.mem_cons_self, ?_⟩
      unfold RunEvent.Valid at hv
      split at hv
      next =>
        obtain ⟨new, hforks⟩ := forks_of_transition (transition_of_act hv)
        rw [← hforks.forked] at hname
        obtain ⟨t, ht, hcontainer⟩ := List.mem_map.1 hname
        exact ⟨t, (hforks.mem_new ht).2.2.2, hcontainer⟩
      next =>
        obtain ⟨t, result, -, -, -, hafter⟩ := transition_of_actTask hv
        rw [RunEvent.forked_of_phase setup (by rw [hafter])] at hname
        cases hname

theorem Survey.mem_forked_iff (h : Survey setup past r) {spec : PodSpec}
    (hp : r.phase = .joining spec none) :
    name ∈ past.flatMap (·.forked setup) ↔
      name ∈ past.flatMap (·.handed) ∨ name ∈ past.flatMap (·.late setup) := by
  rw [h.roster.handing.of_joining hp, ← List.count_pos_iff, count_forked,
    Nat.add_pos_iff_pos_or_pos, List.count_pos_iff, List.count_pos_iff]

end Run

/-! ## every schedule -/

namespace Crew

variable {setup : Setup σ} {c : Crew σ} {i : Nat} {r : Run} {spec : PodSpec}

theorem task_iff_of_play (hr : c.runs[i]? = some r)
    (hp : r.phase = Run.beginStreaming setup spec) (hs : r.started = 0) (ht : r.tasks = [])
    (moves : List Move) (name : String) :
    (∃ e ∈ c.events setup i moves, ∃ t ∈ e.after.tasks, t.container = name) ↔
      name ∈ (c.events setup i moves).flatMap (·.forked setup) := by
  obtain ⟨r', -, -, hiff⟩ := play_induction
    (Q := fun past r' => r'.Streamed setup r.step.name past ∧
      ((∃ e ∈ past, ∃ t ∈ e.after.tasks, t.container = name) ↔
        name ∈ past.flatMap (·.forked setup)))
    (fun past e h hv => ⟨h.1.event hv, h.1.task_iff hv h.2⟩) moves hr
    ⟨Run.streamed_begin hp hs ht, by simp⟩
  exact hiff

theorem forked_of_more (hr : c.runs[i]? = some r) {past : List (RunEvent σ)}
    (h : r.Roster setup past) (hready : r.ready? = none) (more : List Move) :
    (past ++ c.events setup i more).flatMap (·.forked setup) = past.flatMap (·.forked setup) := by
  obtain ⟨r', -, -, -, hforked⟩ := play_induction_from
    (Q := fun past' r' => r'.Roster setup past' ∧ r'.ready? = none ∧
      past'.flatMap (·.forked setup) = past.flatMap (·.forked setup))
    (fun past' e hpast hv => by
      obtain ⟨hroster, hnone, heq⟩ := hpast
      obtain ⟨hnone', hnil⟩ := hroster.ready?_event hv hnone
      exact ⟨hroster.event hv, hnone', (RunEvent.flatMap_concat_of_nil hnil).trans heq⟩)
    more hr ⟨h, hready, rfl⟩
  exact hforked

/-- **Whose logs are captured** when the wait for containers to be ready has ended without an error.
There is a log task for each container that the last snapshot shows running or terminated.  There is
none, and never will be, for a container that was not handed out and that was last seen waiting or
in no known state, or never; its log stream is not opened. -/
theorem captured_of_play (hr : c.runs[i]? = some r)
    (hp : r.phase = Run.beginStreaming setup spec) (hs : r.started = 0) (ht : r.tasks = [])
    (moves : List Move) {pod : PodSpec}
    (hend : (c.play setup moves).runs[i]?.map (·.phase) = some (.joining pod none))
    (hnames : ∀ s ∈ (c.events setup i moves).flatMap (·.shown setup), s.names.Nodup) :
    let shown := (c.events setup i moves).flatMap (·.shown setup)
    let handed := (c.events setup i moves).flatMap (·.handed)
    ∃ earlier last, shown = earlier ++ [last] ∧
      (∀ o ∈ last.observations, o.state = .running ∨ o.state = .terminated →
        ∃ e ∈ c.events setup i moves, ∃ t ∈ e.after.tasks, t.container = o.name) ∧
      ∀ name ∉ handed,
        (∀ o, latest? (shown.flatMap (·.observations)) name = some o →
          o.state = .waiting ∨ o.state = .unknown) →
        ∀ more, ∀ e ∈ c.events setup i (moves ++ more),
          (∀ t ∈ e.after.tasks, t.container ≠ name) ∧ ∀ o ∈ e.openings setup, o.1 ≠ name := by
  intro shown handed
  obtain ⟨r', hr', h⟩ := play_induction (Q := fun past r' => r'.Survey setup past)
    (fun _ _ h hv => h.event hv) moves hr (Run.survey_begin hp)
  rw [hr', Option.map_some, Option.some.injEq] at hend
  obtain ⟨earlier, last, hshown, hcovered⟩ := h.leaving pod hend
  refine ⟨earlier, last, hshown, fun o ho hstate => ?_, fun name hname hlast more => ?_⟩
  · have hnodup : last.names.Nodup := by
      refine hnames last ?_
      rw [hshown]
      exact List.mem_append_right earlier List.mem_cons_self
    have hstarted := Observation.hasStarted_iff.2 hstate
    have hcover := hcovered.started o.name o (latest?_of_nodup hnodup ho) hstarted
    exact (task_iff_of_play hr hp hs ht moves o.name).2 ((h.mem_forked_iff hend).2 hcover)
  · have hlate : name ∉ (c.events setup i moves).flatMap (·.late setup) := by
      intro hmem
      obtain ⟨o, ho, hstarted⟩ := hcovered.late name hmem
      have hlatest : latest? (shown.flatMap (·.observations)) name = some o := by
        have hcut : shown.flatMap (·.observations) =
            earlier.flatMap (·.observations) ++ last.observations := by
          show List.flatMap _ ((c.events setup i moves).flatMap (·.shown setup)) = _
          rw [hshown, List.flatMap_append, List.flatMap_singleton]
        rw [hcut, latest?_append, ho]
        rfl
      have hnot := hlast o hlatest
      rw [Observation.hasStarted_iff] at hstarted
      rcases hstarted with hstate | hstate <;> simp [hstate] at hnot
    have hnever : name ∉ (c.events setup i (moves ++ more)).flatMap (·.forked setup) := by
      have hready : r'.ready? = none := by simp only [Run.ready?, hend]
      rw [events_append, forked_of_more hr' h.roster hready more]
      intro hmem
      exact ((h.mem_forked_iff hend).1 hmem).elim hname hlate
    obtain ⟨-, -, -, -, all, -, hledger⟩ := streamed_of_play hr hp hs ht (moves ++ more)
    have hclosed := hledger.openings_eq_nil hnever
    intro e he
    constructor
    · intro t htask hcontainer
      have hiff := task_iff_of_play hr hp hs ht (moves ++ more) name
      exact hnever (hiff.1 ⟨e, he, t, htask, hcontainer⟩)
    · intro o ho heq
      rw [List.filter_eq_nil_iff] at hclosed
      exact hclosed o (List.mem_flatMap.2 ⟨e, he, ho⟩) (by simpa using heq)

/-- a container that is handed out, one that ends before it was seen ready, and one that never
starts -/
theorem captured_of_unready :
    let setup : Setup (List PodSnapshot) := ⟨replay, {}, fun _ => .panicked⟩
    let spec : PodSpec := { name := "p", namespaceName := "ns", containers := [] }
    let first : PodSnapshot :=
      { phase := .running, statuses := [.running "a" true, .waiting "b" "", .waiting "c" ""] }
    let last : PodSnapshot :=
      { phase := .failed, statuses := [.terminated "a" 0, .terminated "b" 1, .waiting "c" ""] }
    let r : Run :=
      { step := { name := "s", image := "" }, extent := .logs
        phase := Run.beginStreaming setup spec }
    let c := ofRuns [r] { state := [first, last], channel := { room := 9 } } none
    let moves : List Move := List.replicate 5 (.act (.run 0))
    let more : List Move := (List.replicate 3 [0, 1]).flatten.map fun id => .act (.logTask 0 id)
    let events := c.events setup 0 moves
    (∃ e ∈ events, ∃ t ∈ e.after.tasks, t.container = "b") ∧
      "b" ∉ events.flatMap (·.handed) ∧
      ((c.events setup 0 (moves ++ more)).flatMap (·.openings setup)).map (·.1) = ["a", "b"] ∧
      ∀ e ∈ c.events setup 0 (moves ++ more), ∀ t ∈ e.after.tasks, t.container ≠ "c" := by
  intro setup spec first last r c moves more events
  have hshown : events.flatMap (·.shown setup) = [first, last] := by decide +kernel
  have hjoining : ((c.play setup moves).runs[0]?.bind (·.joining?)).any (·.isNone) = true := by
    decide +kernel
  obtain ⟨pod, hend⟩ : ∃ pod, (c.play setup moves).runs[0]?.map (·.phase) =
      some (.joining pod none) := by
    obtain ⟨fatal, hfatal, hnone⟩ := (Option.any_eq_true _ _).1 hjoining
    obtain ⟨r', hr', hphase⟩ := Option.bind_eq_some_iff.1 hfatal
    obtain ⟨pod, hp⟩ := Run.exists_of_joining? hphase
    exact ⟨pod, by rw [hr', Option.map_some, hp, Option.isNone_iff_eq_none.1 hnone]⟩
  obtain ⟨earlier, last', hcut, hstarted, hnone⟩ :=
    captured_of_play (c := c) (r := r) rfl rfl rfl rfl moves hend (by rw [hshown]; decide)
  have hsplit : [first] ++ [last] = earlier ++ [last'] := hshown.symm.trans hcut
  obtain ⟨rfl, hlast⟩ := List.append_inj' hsplit rfl
  obtain rfl : last = last' := List.singleton_inj.1 hlast
  refine ⟨?_, by decide +kernel, by decide +kernel, fun e he => ?_⟩
  · exact hstarted (.of {} .app (.terminated "b" 1)) (by decide) (.inr rfl)
  · refine (hnone "c" (by decide +kernel) (fun o ho => ?_) more e he).1
    rw [hshown] at ho
    have hlatest : latest? ([first, last].flatMap (·.observations)) "c" =
        some (.of {} .app (.waiting "c" "")) := by decide +kernel
    rw [hlatest] at ho
    cases ho
    exact .inl rfl

end Crew

end StepRunner
