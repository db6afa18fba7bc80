import StepRunner.Proofs.Run.Company

/-!
# A run retraced in other company

A run among others and the run of the same step in other company, or on its own.  Whatever the first
one does, the other one can do: as the first one makes a step, the other waits until it is as far
that it can follow, for the clock and for the reader, and makes a step that comes to the same.

* `Crew.exists_due`, `Crew.exists_ready`   a run that waits until it can make its next step
* `Crew.exists_task_ready`                 so does a log task
* `Run.Twin`, `World.Twin`                 two runs that are as far, and what they have left behind
* `Hosts.exists_follow_run`, `Hosts.exists_follow_task`
                                           one of them makes the step of the other
* `Retraces.move`, `Retraces.play`         so it keeps up with the other
-/

namespace StepRunner

variable {σ : Type}

/-! ## waiting -/

theorem Timer.turn_of_unasked {t : Timer} {now : Nat} (hw : t.wake ≤ now) (ha : t.asked = false)
    (delay : Nat) : t.turn now delay = .ask ⟨wakeTime now delay, true⟩ := by
  rw [turn, if_neg (Nat.not_lt.2 hw), ha]
  rfl

theorem Run.act_of_unasked (setup : Setup σ) {r : Run} {w : World σ} {call : Call} {spec : PodSpec}
    (hcall : r.call? = some (call, spec)) (hc : w.cancelled = false) (hw : r.timer.wake ≤ w.now)
    (ha : r.timer.asked = false) :
    ∃ timer, timer.asked = true ∧ r.act setup w = some ({ r with timer }, w) := by
  have hturn (delay : Nat) : r.timer.turn w.now delay = .ask ⟨wakeTime w.now delay, true⟩ :=
    Timer.turn_of_unasked hw ha delay
  refine ⟨⟨wakeTime w.now (setup.platform.delay call spec.ref w.state), true⟩, rfl, ?_⟩
  unfold call? at hcall
  unfold act
  split at hcall <;> simp_all

theorem Run.find?_putTask {t t' : LogTask} {tasks : List LogTask} {id : Nat}
    (ht : tasks.find? (·.id = id) = some t) (hid : t'.id = t.id) :
    (putTask t' tasks).find? (·.id = id) = some t' := by
  have hown : t.id = id := by simpa using List.find?_some ht
  induction tasks with
  | nil => cases ht
  | cons x tasks ih =>
    by_cases hx : x.id = id
    · have hput : putTask t' (x :: tasks) = t' :: putTask t' tasks := by
        simp [putTask, hx, hid, hown]
      rw [hput]
      exact List.find?_cons_of_pos (by simp [hid, hown])
    · rw [List.find?_cons_of_neg (by simpa using hx)] at ht
      have hput : putTask t' (x :: tasks) = x :: putTask t' tasks := by
        simp [putTask, hx, hid, hown]
      rw [hput, List.find?_cons_of_neg (by simpa using hx)]
      exact ih ht

theorem Run.actTask_of_unasked (setup : Setup σ) {r : Run} {w : World σ} {id : Nat} {t : LogTask}
    (ht : r.tasks.find? (·.id = id) = some t) {timer : Timer} (hp : t.phase = .opening timer)
    (hw : timer.wake ≤ w.now) (ha : timer.asked = false) :
    ∃ timer', timer'.asked = true ∧ r.actTask setup id w =
      some ({ r with tasks := putTask { t with phase := .opening timer' } r.tasks }, w) := by
  have hturn (delay : Nat) : timer.turn w.now delay = .ask ⟨wakeTime w.now delay, true⟩ :=
    Timer.turn_of_unasked hw ha delay
  refine ⟨⟨wakeTime w.now (setup.platform.delay .openLogs t.pod w.state), true⟩, rfl, ?_⟩
  simp only [actTask, ht, LogTask.act, hp, hturn, LogTask.goTo, Option.toList_none,
    List.append_nil]

namespace LogTask

variable {t : LogTask} {now : Nat}

theorem Due.of_opening {timer : Timer} (hp : t.phase = .opening timer) (hw : timer.wake ≤ now)
    (ha : timer.asked = true) : t.Due now := by
  refine ⟨fun timer' hp' => ?_, fun scanner times hp' => ?_⟩
  · cases hp.symm.trans hp'
    exact ⟨hw, ha⟩
  · cases hp.symm.trans hp'

theorem Due.of_reading {scanner : Log.Scanner} {times : List Nat}
    (hp : t.phase = .forwarding scanner times none)
    (hn : Log.lineTime scanner.reads times ≤ now) : t.Due now := by
  refine ⟨fun timer hp' => ?_, fun scanner' times' hp' => ?_⟩
  · cases hp.symm.trans hp'
  · cases hp.symm.trans hp'
    exact hn

end LogTask

/-- a log task whose call is made, or is yet to be made, is as far as before -/
theorem Run.Grown.like_putTask {setup : Setup σ} {step : StepDefinition} {r : Run}
    (h : r.Grown setup step) {t : LogTask} (ht : t ∈ r.tasks) {timer : Timer}
    (hp : t.phase = .opening timer) (timer' : Timer) :
    List.Forall₂ LogTask.Like r.tasks
      (putTask { t with phase := .opening timer' } r.tasks) := by
  refine LogTask.like_putTask fun u hu hid => ?_
  obtain rfl := h.eq_of_id ht hu hid
  exact ⟨rfl, rfl, rfl, rfl, hp ▸ .opening timer timer'⟩

theorem Run.exists_act_of_actTask {setup : Setup σ} {r r' : Run} {w w' : World σ} {id : Nat}
    (h : r.actTask setup id w = some (r', w')) :
    ∃ t result, r.tasks.find? (·.id = id) = some t ∧
      t.act setup.platform setup.config.sanitize w = some result ∧ w' = result.world ∧
      r' = { r with
        tasks := putTask result.task r.tasks
        failures := r.failures ++ result.failure.toList } := by
  unfold actTask at h
  split at h
  next => cases h
  next t hfind =>
    split at h
    next => cases h
    next result hact =>
      cases h
      exact ⟨t, result, hfind, hact, rfl, rfl⟩

namespace Crew

variable {setup : Setup σ} {c : Crew σ} {step : StepDefinition} {name : String} {i : Nat} {q : Run}

/-- the clock comes to any time that one waits for -/
theorem exists_play_until (setup : Setup σ) {time : Nat} (hmem : time ∈ c.wakes) :
    ∃ moves now, c.play setup moves = { c with world := { c.world with now } } ∧ time ≤ now := by
  -- each tick brings the clock nearer to that time
  induction hleft : time - c.world.now using Nat.strongRecOn generalizing c with
  | _ left ih =>
    by_cases hlt : c.world.now < time
    · obtain ⟨c', htick⟩ := Option.isSome_iff_exists.1 (isSome_tick hmem hlt)
      obtain ⟨now, -, hlater, hnext, rfl⟩ := tick_eq_some_iff.1 htick
      have hle : now ≤ time := hnext time hmem hlt
      obtain ⟨moves, now', hplay, hreached⟩ := ih (time - now) (by omega)
        (c := { c with world := { c.world with now } }) hmem rfl
      refine ⟨.tick :: moves, now', ?_, hreached⟩
      rw [play_cons, move, htick]
      exact hplay
    · exact ⟨[], c.world.now, rfl, Nat.le_of_not_lt hlt⟩

/-- the reader takes all lines that are under way -/
theorem exists_play_read (setup : Setup σ) (c : Crew σ) :
    ∃ moves, c.play setup moves =
      { c with world := { c.world with channel := { c.world.channel with underWay := 0 } } } := by
  induction hlines : c.world.channel.underWay generalizing c with
  | zero => exact ⟨[], by rw [← hlines]; rfl⟩
  | succ n ih =>
    have hread : c.move setup (.act .reader) =
        { c with world := { c.world with channel := { c.world.channel with underWay := n } } } := by
      simp only [move, act, Channel.receive?, hlines]
      rfl
    obtain ⟨moves, hplay⟩ := ih (c.move setup (.act .reader)) (by rw [hread])
    refine ⟨.act .reader :: moves, ?_⟩
    rw [play_cons, hplay, hread]

/-- the runs and what they have done stay as they are until then -/
theorem exists_reached (setup : Setup σ) (hq : c.runs[i]? = some q) {time : Nat}
    (hmem : time ∈ c.wakes) :
    ∃ moves, (c.play setup moves).runs[i]? = some q ∧
      (c.play setup moves).world.SameRecord c.world ∧ time ≤ (c.play setup moves).world.now := by
  obtain ⟨moves, now, hplay, hreached⟩ := exists_play_until setup hmem
  refine ⟨moves, ?_⟩
  rw [hplay]
  exact ⟨hq, ⟨rfl, rfl, rfl⟩, hreached⟩

theorem exists_run_reached (setup : Setup σ) (hq : c.runs[i]? = some q) (hcall : q.call? ≠ none) :
    ∃ moves, (c.play setup moves).runs[i]? = some q ∧
      (c.play setup moves).world.SameRecord c.world ∧
      q.timer.wake ≤ (c.play setup moves).world.now := by
  have hwake : q.wake? = some q.timer.wake := by
    unfold Run.call? at hcall
    unfold Run.wake?
    split <;> simp_all
  refine exists_reached setup hq
    (List.mem_append_right _ (List.mem_flatMap.2 ⟨q, List.mem_of_getElem? hq, ?_⟩))
  rw [hwake]
  exact List.mem_cons_self

/-- a run makes the call that it is to make, and waits for its effect -/
theorem exists_due (h : c.Hosts setup step name i) (hq : c.runs[i]? = some q) :
    ∃ moves timer, (c.play setup moves).runs[i]? = some { q with timer } ∧
      (c.play setup moves).world.SameRecord c.world ∧
      (q.call? ≠ none → timer.wake ≤ (c.play setup moves).world.now ∧ timer.asked = true) := by
  cases hcall : q.call? with
  | none => exact ⟨[], q.timer, hq, .refl _, fun hne => absurd rfl hne⟩
  | some called =>
    obtain ⟨call, spec⟩ := called
    have hwaits : q.call? ≠ none := by simp [hcall]
    obtain ⟨moves, hq', hsame, hreached⟩ := exists_run_reached setup hq hwaits
    cases hasked : q.timer.asked with
    | true => exact ⟨moves, q.timer, hq', hsame, fun _ => ⟨hreached, hasked⟩⟩
    | false =>
      obtain ⟨timer, htimer, hact⟩ := Run.act_of_unasked setup hcall
        (h.play moves).unarmed.cancelled hreached hasked
      obtain ⟨-, hmove⟩ := move_run hq' hact
      have hnext : ((c.play setup moves).move setup (.act (.run i))).runs[i]? =
          some { q with timer } := by
        rw [hmove]
        exact List.getElem?_set_self (List.getElem?_eq_some_iff.1 hq').1
      obtain ⟨later, hq'', hsame', hreached'⟩ := exists_run_reached setup hnext hwaits
      refine ⟨moves ++ .act (.run i) :: later, timer, ?_⟩
      rw [play_append, play_cons]
      refine ⟨hq'', ?_, fun _ => ⟨hreached', htimer⟩⟩
      rw [hmove] at hsame' ⊢
      exact hsame'.trans ((record_settle _ _ _).trans hsame)

/-- a run that waits until nothing keeps it from its next step -/
theorem exists_ready (h : c.Hosts setup step name i) (hq : c.runs[i]? = some q) :
    ∃ moves timer, (c.play setup moves).runs[i]? = some { q with timer } ∧
      (c.play setup moves).world.SameRecord c.world ∧
      { q with timer }.Ready (c.play setup moves).world := by
  obtain ⟨moves, timer, hq', hsame, hdue⟩ := exists_due h hq
  have hhosts := h.play moves
  obtain ⟨reads, hread⟩ := exists_play_read setup (c.play setup moves)
  refine ⟨moves ++ reads, timer, ?_⟩
  rw [play_append, hread]
  refine ⟨hq', ⟨hsame.state, hsame.calls, hsame.sent⟩, hhosts.unarmed.cancelled, ?_, hdue⟩
  simp [Channel.canSend, hhosts.room]

theorem exists_task_reached (setup : Setup σ) (hq : c.runs[i]? = some q) {t : LogTask}
    (ht : t ∈ q.tasks) {time : Nat} (hwake : t.wake? = some time) :
    ∃ moves, (c.play setup moves).runs[i]? = some q ∧
      (c.play setup moves).world.SameRecord c.world ∧
      time ≤ (c.play setup moves).world.now := by
  refine exists_reached setup hq
    (List.mem_append_right _ (List.mem_flatMap.2 ⟨q, List.mem_of_getElem? hq, ?_⟩))
  exact List.mem_append_right _ (List.mem_filterMap.2 ⟨t, ht, hwake⟩)

theorem exists_task_due (h : c.Hosts setup step name i) (hq : c.runs[i]? = some q) {id : Nat}
    {t : LogTask} (ht : q.tasks.find? (·.id = id) = some t) :
    ∃ moves tasks t', (c.play setup moves).runs[i]? = some { q with tasks } ∧
      (c.play setup moves).world.SameRecord c.world ∧
      List.Forall₂ LogTask.Like q.tasks tasks ∧ tasks.find? (·.id = id) = some t' ∧
      t'.Due (c.play setup moves).world.now := by
  have hrefl : List.Forall₂ LogTask.Like q.tasks q.tasks :=
    List.forall₂_same.2 fun t _ => .refl t
  have hmem := List.mem_of_find?_eq_some ht
  obtain ⟨r, hr, hgrown⟩ := h.run
  obtain rfl : q = r := Option.some.inj (hq.symm.trans hr)
  -- one that waits for no time is ready as it is
  have hstill (hdue : t.Due c.world.now) :
      ∃ moves tasks t', (c.play setup moves).runs[i]? = some { q with tasks } ∧
        (c.play setup moves).world.SameRecord c.world ∧
        List.Forall₂ LogTask.Like q.tasks tasks ∧ tasks.find? (·.id = id) = some t' ∧
        t'.Due (c.play setup moves).world.now :=
    ⟨[], q.tasks, t, hq, .refl _, hrefl, ht, hdue⟩
  cases hp : t.phase with
  | opening timer =>
    have hwake : t.wake? = some timer.wake := by rw [LogTask.wake?, hp]
    obtain ⟨moves, hq', hsame, hreached⟩ := exists_task_reached setup hq hmem hwake
    cases hasked : timer.asked with
    | true =>
      exact ⟨moves, q.tasks, t, hq', hsame, hrefl, ht, .of_opening hp hreached hasked⟩
    | false =>
      obtain ⟨timer', htimer, hact⟩ := Run.actTask_of_unasked setup ht hp hreached hasked
      obtain ⟨-, hmove⟩ := move_logTask hq' hact
      have hnext : ((c.play setup moves).move setup (.act (.logTask i id))).runs[i]? = some
          { q with tasks := Run.putTask { t with phase := .opening timer' } q.tasks } := by
        rw [hmove]
        exact List.getElem?_set_self (List.getElem?_eq_some_iff.1 hq').1
      have hfind : (Run.putTask { t with phase := .opening timer' } q.tasks).find? (·.id = id) =
          some { t with phase := .opening timer' } := Run.find?_putTask ht rfl
      obtain ⟨later, hq'', hsame', hreached'⟩ :=
        exists_task_reached setup hnext (List.mem_of_find?_eq_some hfind) rfl
      refine ⟨moves ++ .act (.logTask i id) :: later, _, _, ?_, ?_, ?_, hfind, ?_⟩
      · rw [play_append, play_cons]
        exact hq''
      · rw [play_append, play_cons]
        rw [hmove] at hsame' ⊢
        exact hsame'.trans hsame
      · exact hgrown.like_putTask hmem hp timer'
      · rw [play_append, play_cons]
        exact .of_opening rfl hreached' htimer
  | forwarding scanner times line =>
    cases line with
    | none =>
      have hwake : t.wake? = some (Log.lineTime scanner.reads times) := by rw [LogTask.wake?, hp]
      obtain ⟨moves, hq', hsame, hreached⟩ := exists_task_reached setup hq hmem hwake
      exact ⟨moves, q.tasks, t, hq', hsame, hrefl, ht, .of_reading hp hreached⟩
    | some line => exact hstill ⟨by simp [hp], by simp [hp]⟩
  | ended | panicked => exact hstill ⟨by simp [hp], by simp [hp]⟩

theorem exists_task_ready (h : c.Hosts setup step name i) (hq : c.runs[i]? = some q) {id : Nat}
    {t : LogTask} (ht : q.tasks.find? (·.id = id) = some t) :
    ∃ moves tasks t', (c.play setup moves).runs[i]? = some { q with tasks } ∧
      (c.play setup moves).world.SameRecord c.world ∧
      List.Forall₂ LogTask.Like q.tasks tasks ∧ tasks.find? (·.id = id) = some t' ∧
      t'.Ready (c.play setup moves).world := by
  obtain ⟨moves, tasks, t', hq', hsame, htasks, ht', hdue⟩ := exists_task_due h hq ht
  have hhosts := h.play moves
  obtain ⟨reads, hread⟩ := exists_play_read setup (c.play setup moves)
  refine ⟨moves ++ reads, tasks, t', ?_⟩
  rw [play_append, hread]
  refine ⟨hq', ⟨hsame.state, hsame.calls, hsame.sent⟩, htasks, ht', hhosts.isOpen, ?_, hdue⟩
  simp [Channel.canSend, hhosts.room]

end Crew

/-! ## keeping up -/

/-- two runs of a step that are as far, with the same failures of log tasks -/
structure Run.Twin (r q : Run) : Prop where
  like : r.Like Eq q
  tasks : List.Forall₂ LogTask.Like r.tasks q.tasks
  failures : r.failures = q.failures

/-- two worlds that have seen the same of one step and of its pod -/
structure World.Twin (name step : String) (w v : World PacedCluster) : Prop where
  agree : w.state.Agree name v.state
  calls : w.callsOn name = v.callsOn name
  lines : w.linesOf step = v.linesOf step

theorem World.Twin.of_record {name step : String} {w w' v v' : World PacedCluster}
    (h : w.Twin name step v) (hw : w'.SameRecord w) (hv : v'.SameRecord v) :
    w'.Twin name step v' := by
  refine ⟨?_, ?_, ?_⟩
  · rw [hw.state, hv.state]
    exact h.agree
  · rw [hw.callsOn, hv.callsOn]
    exact h.calls
  · rw [hw.linesOf, hv.linesOf]
    exact h.lines

theorem Run.act_of_joinable (setup : Setup σ) {q : Run} {v : World σ} {spec : PodSpec}
    {fatal : Option RunError} {u : LogTask} {us : List LogTask}
    (hq : q.phase = .joining spec fatal) (hc : v.cancelled = false)
    (hu : joinable? q.tasks = some (u, us)) :
    ∃ warnings, q.act setup v = some ({ q with
      tasks := us
      failures := q.failures ++ if u.isPanicked then [panicError u] else [] },
        v.warn warnings) := by
  cases hpanicked : u.isPanicked with
  | true => exact ⟨[.logTaskPanicked], by simp [act, hq, hc, hu, hpanicked]⟩
  | false =>
    have hquiet : v.warn [] = v := by simp [World.warn]
    refine ⟨[], ?_⟩
    rw [hquiet]
    simp [act, hq, hc, hu, hpanicked]

theorem World.Twin.event {name step : String} {setup : Setup PacedCluster}
    {e e' : RunEvent PacedCluster} (h : e.seen.Twin name step e'.seen) (hv : e.Valid setup)
    (hv' : e'.Valid setup) (hdeeds : e.deeds = e'.deeds) (hsent : e.sent = e'.sent)
    (hagree : e.left.state.Agree name e'.left.state) : e.left.Twin name step e'.left := by
  refine ⟨hagree, ?_, ?_⟩
  · rw [RunEvent.callsOn_left hv, RunEvent.callsOn_left hv', h.calls, hdeeds]
  · rw [RunEvent.linesOf_left hv, RunEvent.linesOf_left hv', h.lines, hsent]

theorem World.Twin.followed {name step : String} {options : Text.SanitizeOptions} {t u : LogTask}
    {w v : World PacedCluster} {result result' : LogTask.Result PacedCluster}
    (h : w.Twin name step v) (hact : t.act pacedPlatform options w = some result)
    (hf : LogTask.Followed options result w u v result') :
    result.world.Twin name step result'.world := by
  obtain ⟨made, hcalls, hcalls'⟩ := hf.calls
  obtain ⟨lines, hsent, hsent'⟩ := hf.sent
  refine ⟨?_, ?_, ?_⟩
  · rw [(LogTask.transition_of_act hact).state_eq Platform.steady_paced,
      (LogTask.transition_of_act hf.act).state_eq Platform.steady_paced]
    exact h.agree
  · have hmade (now : Nat) : (made.map fun event => (⟨now, u.pod, event⟩ : CallRecord)).map
        (fun c => (c.pod, c.event)) = made.map (u.pod, ·) := List.map_map
    rw [World.callsOn_of_append hcalls, World.callsOn_of_append hcalls', h.calls, hmade, hmade]
  · rw [World.linesOf_of_append hsent, World.linesOf_of_append hsent', h.lines]

namespace Crew

/-- Run `i` of one crew and run `j` of another are as far, and so is what there is to be seen of
them. -/
structure Retraces (name step : String) (i j : Nat) (c d : Crew PacedCluster) : Prop where
  runs : ∃ r q, c.runs[i]? = some r ∧ d.runs[j]? = some q ∧ r.Twin q
  worlds : c.world.Twin name step d.world

variable {config : Config} {build : StepDefinition → Built} {step : StepDefinition}
  {name : String} {i j : Nat} {c d : Crew PacedCluster} {r q r' : Run} {w w' : World PacedCluster}

theorem runs_move_run {setup : Setup σ} {d : Crew σ} {q q' : Run} {v' : World σ}
    (hq : d.runs[j]? = some q) (hact : q.act setup d.world = some (q', v')) :
    (d.move setup (.act (.run j))).runs[j]? = some q' ∧
      (d.move setup (.act (.run j))).world.SameRecord v' := by
  obtain ⟨hevent, hmove⟩ := move_run hq hact
  refine ⟨?_, record_of_event hevent⟩
  rw [hmove]
  exact List.getElem?_set_self (List.getElem?_eq_some_iff.1 hq).1

theorem runs_move_logTask {setup : Setup σ} {d : Crew σ} {q q' : Run} {v' : World σ} {id : Nat}
    (hq : d.runs[j]? = some q) (hact : q.actTask setup id d.world = some (q', v')) :
    (d.move setup (.act (.logTask j id))).runs[j]? = some q' ∧
      (d.move setup (.act (.logTask j id))).world.SameRecord v' := by
  obtain ⟨hevent, hmove⟩ := move_logTask hq hact
  refine ⟨?_, record_of_event hevent⟩
  rw [hmove]
  exact List.getElem?_set_self (List.getElem?_eq_some_iff.1 hq).1

/-- as a run makes a step, one that is as far can keep up -/
theorem Hosts.exists_follow_run (hd : d.Hosts ⟨pacedPlatform, config, build⟩ step name j)
    (hgrown : r.Grown ⟨pacedPlatform, config, build⟩ step)
    (hown : ∀ spec, build step = .spec spec → spec.name = name)
    (hact : r.act ⟨pacedPlatform, config, build⟩ w = some (r', w'))
    (hunfired : w.cancelled = false) (hopen : w.channel.isOpen = true)
    (hq : d.runs[j]? = some q) (htwin : r.Twin q) (hworlds : w.Twin name step.name d.world) :
    ∃ moves q', (d.play ⟨pacedPlatform, config, build⟩ moves).runs[j]? = some q' ∧ r'.Twin q' ∧
      w'.Twin name step.name (d.play ⟨pacedPlatform, config, build⟩ moves).world := by
  have hname (spec : PodSpec) (hs : r.spec? = some spec) : spec.name = name :=
    hown spec (hgrown.built hs)
  cases Run.leads_of_act (E := Eq) hact hunfired (Platform.alike_paced name) hname with
  | asked _ _ ha hl =>
    dsimp only at ha hl
    subst ha hl
    exact ⟨[], q, hq, ⟨{ htwin.like with }, htwin.tasks, htwin.failures⟩, hworlds⟩
  | @joined spec fatal task tasks hp hj ha hl =>
    obtain ⟨warnings, hl⟩ := hl
    dsimp only at ha hl
    subst ha hl
    obtain ⟨u, us, hu, htask, hrest⟩ := LogTask.joinable?_like htwin.tasks hj
    have hphase : q.phase = .joining spec fatal := (Run.like_phase_of htwin.like hp).of_joining
    obtain ⟨warnings', hact'⟩ :=
      Run.act_of_joinable ⟨pacedPlatform, config, build⟩ hphase hd.unarmed.cancelled hu
    obtain ⟨hq', hsame⟩ := runs_move_run hq hact'
    refine ⟨[.act (.run j)], _, hq', ⟨{ htwin.like with }, hrest, ?_⟩,
      hworlds.of_record ⟨rfl, rfl, rfl⟩ (hsame.trans ⟨rfl, rfl, rfl⟩)⟩
    show r.failures ++ _ = q.failures ++ _
    rw [htwin.failures, htask.isPanicked, Run.panicError, Run.panicError, htask.pod]
  | step _ hfollow =>
    obtain ⟨moves, timer, hq', hsame, hready⟩ := exists_ready hd hq
    have hworlds' := hworlds.of_record (.refl w) hsame
    have hjoined (hnil : r.tasks = []) : q.tasks = [] ∧ r.failures = q.failures ∧
        (r.failures = [] ↔ q.failures = []) := by
      refine ⟨?_, htwin.failures, by rw [htwin.failures]⟩
      have htasks := htwin.tasks
      rw [hnil] at htasks
      exact List.forall₂_nil_left_iff.1 htasks
    obtain ⟨q', v', hact', hsteps, hagree⟩ :=
      hfollow { q with timer } _ { htwin.like with } hready hworlds'.agree hjoined
    obtain ⟨hq'', hsame'⟩ := runs_move_run hq' hact'
    obtain ⟨⟨new, new', hnew, hnew', htasks⟩, hleft, hright⟩ := hsteps.forked
    have hv : RunEvent.Valid ⟨pacedPlatform, config, build⟩ ⟨none, r, w, r', w'⟩ := hact
    have hv' : RunEvent.Valid ⟨pacedPlatform, config, build⟩
      ⟨none, { q with timer }, _, q', v'⟩ := hact'
    have hend : w'.Twin name step.name v' :=
      World.Twin.event hworlds' hv hv' hsteps.deeds (hsteps.sent hopen (hd.play moves).isOpen)
        hagree
    refine ⟨moves ++ [.act (.run j)], ?_⟩
    rw [play_append]
    refine ⟨q', hq'', ⟨hsteps.after, ?_, hleft.trans (htwin.failures.trans hright.symm)⟩,
      hend.of_record (.refl w') hsame'⟩
    rw [show r'.tasks = _ from hnew, show q'.tasks = _ from hnew']
    exact List.rel_append htwin.tasks htasks

theorem Hosts.exists_follow_task (hd : d.Hosts ⟨pacedPlatform, config, build⟩ step name j)
    (hgrown : r.Grown ⟨pacedPlatform, config, build⟩ step)
    (hown : ∀ spec, build step = .spec spec → spec.name = name) {id : Nat}
    (hmade : r.actTask ⟨pacedPlatform, config, build⟩ id w = some (r', w'))
    (hopen : w.channel.isOpen = true) (hq : d.runs[j]? = some q) (htwin : r.Twin q)
    (hworlds : w.Twin name step.name d.world) :
    ∃ moves q', (d.play ⟨pacedPlatform, config, build⟩ moves).runs[j]? = some q' ∧ r'.Twin q' ∧
      w'.Twin name step.name (d.play ⟨pacedPlatform, config, build⟩ moves).world := by
  obtain ⟨t, result, hfind, hact, rfl, rfl⟩ := Run.exists_act_of_actTask hmade
  have hmem := List.mem_of_find?_eq_some hfind
  obtain ⟨-, spec, hspec, hpod⟩ := hgrown.task hmem
  have hname : t.pod.name = name := by
    rw [hpod]
    exact hown spec (hgrown.built hspec)
  obtain ⟨u, hu, htu⟩ := LogTask.find?_like htwin.tasks hfind
  obtain ⟨timer, timer', hp, rfl⟩ | hfollow := LogTask.leads_of_act hact hopen
  · -- the log task that only makes a call is as far as before
    have hput := hgrown.like_putTask hmem hp timer'
    exact ⟨[], q, hq, ⟨{ htwin.like with },
      LogTask.forall₂_like_trans (LogTask.forall₂_like_symm hput) htwin.tasks,
      (List.append_nil _).trans htwin.failures⟩, hworlds⟩
  · obtain ⟨moves, tasks, u', hq', hsame, htasks, hu', hready⟩ := exists_task_ready hd hq hu
    have hworlds' := hworlds.of_record (.refl w) hsame
    have hlike := LogTask.forall₂_like_trans htwin.tasks htasks
    obtain ⟨u'', hfind', htu'⟩ := LogTask.find?_like hlike hfind
    obtain rfl : u' = u'' := Option.some.inj (hu'.symm.trans hfind')
    obtain ⟨result', hf⟩ := hfollow u' _ htu' hready (hname ▸ hworlds'.agree)
    have hmade' : { q with tasks }.actTask ⟨pacedPlatform, config, build⟩ id
        (d.play ⟨pacedPlatform, config, build⟩ moves).world = some ({ q with
          tasks := Run.putTask result'.task tasks
          failures := q.failures ++ result'.failure.toList }, result'.world) := by
      simp only [Run.actTask, hu', hf.act]
    obtain ⟨hq'', hsame'⟩ := runs_move_logTask hq' hmade'
    refine ⟨moves ++ [.act (.logTask j id)], ?_⟩
    rw [play_append]
    refine ⟨_, hq'', ⟨{ htwin.like with }, LogTask.putTask_like hlike hf.task, ?_⟩,
      (hworlds'.followed hact hf).of_record (.refl _) hsame'⟩
    show r.failures ++ _ = q.failures ++ _
    rw [htwin.failures, hf.failure]

theorem Retraces.move (h : Retraces name step.name i j c d)
    (hc : c.Hosts ⟨pacedPlatform, config, build⟩ step name i)
    (hd : d.Hosts ⟨pacedPlatform, config, build⟩ step name j)
    (hown : ∀ spec, build step = .spec spec → spec.name = name) (m : Move) :
    ∃ moves, Retraces name step.name i j (c.move ⟨pacedPlatform, config, build⟩ m)
      (d.play ⟨pacedPlatform, config, build⟩ moves) := by
  obtain ⟨⟨r, q, hr, hq, htwin⟩, hworlds⟩ := h
  obtain ⟨hr', hagree, hcalls, hlines⟩ |
    ⟨e, hv, rfl, hseen, hgrown, hunfired, hopen, hr', hsame⟩ := hc.move_view hr m
  · exact ⟨[], ⟨r, q, hr', hq, htwin⟩, hagree _ hworlds.agree, hcalls.trans hworlds.calls,
      hlines.trans hworlds.lines⟩
  · rw [← hseen] at hworlds
    have hfollow : ∃ moves q', (d.play ⟨pacedPlatform, config, build⟩ moves).runs[j]? = some q' ∧
        e.after.Twin q' ∧
        e.left.Twin name step.name (d.play ⟨pacedPlatform, config, build⟩ moves).world := by
      unfold RunEvent.Valid at hv
      split at hv
      · exact hd.exists_follow_run hgrown hown hv hunfired hopen hq htwin hworlds
      · exact hd.exists_follow_task hgrown hown hv hopen hq htwin hworlds
    obtain ⟨moves, q', hq', htwin', hworlds'⟩ := hfollow
    exact ⟨moves, ⟨e.after, q', hr', hq', htwin'⟩, hworlds'.of_record hsame (.refl _)⟩

/-- **A run can be retraced in any other company**: whatever becomes of it under some schedule, a
run of the same step can come to the same. -/
theorem Retraces.play (h : Retraces name step.name i j c d)
    (hc : c.Hosts ⟨pacedPlatform, config, build⟩ step name i)
    (hd : d.Hosts ⟨pacedPlatform, config, build⟩ step name j)
    (hown : ∀ spec, build step = .spec spec → spec.name = name) (moves : List Move) :
    ∃ moves', Retraces name step.name i j (c.play ⟨pacedPlatform, config, build⟩ moves)
      (d.play ⟨pacedPlatform, config, build⟩ moves') := by
  induction moves generalizing c d with
  | nil => exact ⟨[], h⟩
  | cons m moves ih =>
    obtain ⟨first, hfirst⟩ := h.move hc hd hown m
    obtain ⟨rest, hrest⟩ := ih hfirst (hc.move m) (hd.play first)
    refine ⟨first ++ rest, ?_⟩
    rw [play_append]
    exact hrest

end Crew

end StepRunner
