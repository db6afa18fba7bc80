import StepRunner.Proofs.Run.Fanout
import StepRunner.Proofs.Wait.Looks

/-!
# Progress

A run that is not over is never stuck: it can make a step, or it waits for the clock, for a log task
or for the reader, and then one of these can go on.  And no wait is endless: the steps that a run
makes are limited by the looks that one wait may take, unless the platform shows new containers, or
the old ones anew, again and again.

* `act_run_eq_none_iff`, `act_logTask_eq_none_iff`   who can make no step
* `tick_eq_some_iff`      to which time the clock moves on
* `able_of_room`          as long as a run is not over, someone can make a step, or the clock can
* `RunEvent.finished`     the containers that the wait for the end of the pod was handed
* `Run.work`              the steps that a run has left if no container is handed out any more
* `affords_transition`    what a step of a run costs
* `Run.Paced`             a run whose waits keep to their limit
* `LogTask.Paced`         a log task that makes no more steps than its lines take
* `Run.Frugal`            the steps that a run and its log tasks make at most
* `frugal_of_play`        under every schedule they make no more
-/

namespace StepRunner

variable {σ : Type}

namespace Crew

variable {setup : Setup σ} {c c' : Crew σ}

/-! ## who can make no step -/

theorem act_run_eq_none_iff {k : Nat} :
    c.act setup (.run k) = none ↔ ∀ r, c.runs[k]? = some r → r.Rests c.world := by
  unfold act
  dsimp only
  cases c.runs[k]? with
  | none => simp
  | some r =>
    have hrests : r.act setup c.world = none ↔ r.Rests c.world := Run.act_eq_none_iff
    simp only [Option.some.injEq, forall_eq', ← hrests]
    cases r.act setup c.world with
    | none => simp
    | some p => simp

theorem act_logTask_eq_none_iff {k id : Nat} :
    c.act setup (.logTask k id) = none ↔
      ∀ r, c.runs[k]? = some r → ∀ t, r.tasks.find? (·.id = id) = some t →
        t.Rests c.world := by
  unfold act
  dsimp only
  cases c.runs[k]? with
  | none => simp
  | some r =>
    have hrests (t : LogTask) : t.act setup.platform setup.config.sanitize c.world = none ↔
        t.Rests c.world := LogTask.act_eq_none_iff
    simp only [Run.actTask, Option.some.injEq, forall_eq', ← hrests]
    cases r.tasks.find? (·.id = id) with
    | none => simp
    | some t =>
      simp only [Option.some.injEq, forall_eq']
      cases t.act setup.platform setup.config.sanitize c.world with
      | none => simp
      | some result => simp

/-! ## the clock -/

/-- the times that runs and log tasks wait for -/
def runWakes (c : Crew σ) : List Nat :=
  c.runs.flatMap fun r => r.wake?.toList ++ r.tasks.filterMap (·.wake?)

theorem tick_eq_some_iff :
    c.tick = some c' ↔ ∃ now, now ∈ c.wakes ∧ c.world.now < now ∧
      (∀ wake ∈ c.wakes, c.world.now < wake → now ≤ wake) ∧
      c' = { c with world := { c.world with now } } := by
  have hmin (now : Nat) : (c.wakes.filter (c.world.now < ·)).min? = some now ↔
      now ∈ c.wakes ∧ c.world.now < now ∧ ∀ wake ∈ c.wakes, c.world.now < wake → now ≤ wake := by
    rw [List.min?_eq_some_iff]
    simp [List.mem_filter, and_assoc]
  unfold tick
  constructor
  · intro h
    split at h
    next now hnow =>
      cases h
      obtain ⟨hmem, hlt, hle⟩ := (hmin now).1 hnow
      exact ⟨now, hmem, hlt, hle, rfl⟩
    next => cases h
  · rintro ⟨now, hmem, hlt, hle, rfl⟩
    rw [(hmin now).2 ⟨hmem, hlt, hle⟩]

theorem isSome_tick {time : Nat} (hwake : time ∈ c.wakes) (hnow : c.world.now < time) :
    c.tick.isSome = true := by
  have hmem : time ∈ c.wakes.filter (c.world.now < ·) :=
    List.mem_filter.2 ⟨hwake, by simpa using hnow⟩
  unfold tick
  cases hmin : (c.wakes.filter (c.world.now < ·)).min? with
  | some now => rfl
  | none =>
    rw [List.min?_eq_none_iff] at hmin
    rw [hmin] at hmem
    cases hmem

/-! ## someone can always go on -/

theorem isSome_act_reader (hroom : 0 < c.world.channel.room)
    (hs : c.world.channel.canSend = false) : (c.act setup .reader).isSome = true := by
  have hfull : c.world.channel.underWay ≠ 0 := by
    intro hnone
    simp [Channel.canSend, hnone, hroom] at hs
  unfold act Channel.receive?
  dsimp only
  cases hline : c.world.channel.underWay with
  | zero => exact absurd hline hfull
  | succ n => rfl

theorem joinable?_eq_none {tasks : List LogTask} (h : Run.joinable? tasks = none) {t : LogTask}
    (ht : t ∈ tasks) : t.isOver = false := by
  induction tasks with
  | nil => cases ht
  | cons u rest ih =>
    unfold Run.joinable? at h
    split at h
    next => cases h
    next hover =>
      rcases List.mem_cons.1 ht with rfl | ht
      · simpa using hover
      · exact ih (Option.map_eq_none_iff.1 h) ht

/-- **As long as a run is not over, someone can make a step, or the clock can move on**: the run
itself, one of its log tasks, or the reader that they wait for. -/
theorem able_of_room {i : Nat} {r : Run} (hroom : 0 < c.world.channel.room)
    (hr : c.runs[i]? = some r) (ho : r.isOver = false) :
    (∃ a, (c.act setup a).isSome = true) ∨ c.tick.isSome = true := by
  have hwakes {time : Nat} (h : time ∈ r.wake?.toList ++ r.tasks.filterMap (·.wake?)) :
      time ∈ c.wakes :=
    List.mem_append_right _ (List.mem_flatMap.2 ⟨r, List.mem_of_getElem? hr, h⟩)
  have hown {time : Nat} (h : r.wake? = some time) : time ∈ c.wakes := by
    refine hwakes (List.mem_append_left _ ?_)
    rw [h]
    exact List.mem_singleton_self time
  cases hact : c.act setup (.run i) with
  | some next => exact .inl ⟨.run i, by rw [hact]; rfl⟩
  | none =>
    have hrests := act_run_eq_none_iff.1 hact r hr
    unfold Run.Rests at hrests
    cases hp : r.phase with
    | start => simp [hp] at hrests
    | ended | panicked => simp [Run.isOver, hp] at ho
    | creating | deleting =>
      rw [hp] at hrests
      exact .inr (isSome_tick (hown (by simp only [Run.wake?, hp])) hrests)
    | streaming | finishing =>
      rw [hp] at hrests
      exact .inr (isSome_tick (hown (by simp only [Run.wake?, hp])) hrests.2)
    | announcing =>
      rw [hp] at hrests
      exact .inl ⟨.reader, isSome_act_reader hroom hrests.2⟩
    | joining =>
      -- a log task that is not over yet: it can make a step, or waits itself
      rw [hp] at hrests
      obtain ⟨-, hj, htasks⟩ := hrests
      obtain ⟨u, rest, htasks⟩ := List.exists_cons_of_ne_nil htasks
      have hu : u ∈ r.tasks := by
        rw [htasks]
        exact List.mem_cons_self
      obtain ⟨t, hfind⟩ : ∃ t, r.tasks.find? (·.id = u.id) = some t :=
        Option.isSome_iff_exists.1 (List.find?_isSome.2 ⟨u, hu, by simp⟩)
      have ht := List.mem_of_find?_eq_some hfind
      have hover := joinable?_eq_none hj ht
      cases hact : c.act setup (.logTask i u.id) with
      | some next => exact .inl ⟨.logTask i u.id, by rw [hact]; rfl⟩
      | none =>
        have hrests := act_logTask_eq_none_iff.1 hact r hr t hfind
        unfold LogTask.Rests at hrests
        cases htp : t.phase with
        | opening timer =>
          rw [htp] at hrests
          have hwake : t.wake? = some timer.wake := by simp only [LogTask.wake?, htp]
          refine .inr (isSome_tick (hwakes (List.mem_append_right _ ?_)) hrests)
          exact List.mem_filterMap.2 ⟨t, ht, hwake⟩
        | forwarding scanner times line =>
          cases line with
          | none =>
            rw [htp] at hrests
            have hwake : t.wake? = some (Log.lineTime scanner.reads times) := by
              simp only [LogTask.wake?, htp]
            refine .inr (isSome_tick (hwakes (List.mem_append_right _ ?_)) hrests)
            exact List.mem_filterMap.2 ⟨t, ht, hwake⟩
          | some line =>
            rw [htp] at hrests
            exact .inl ⟨.reader, isSome_act_reader hroom hrests⟩
        | ended | panicked => simp [LogTask.isOver, htp] at hover

end Crew

/-! ## the containers handed to the wait for the end -/

namespace RunEvent

variable {setup : Setup σ} {e : RunEvent σ}

/-- the containers that the wait for the end of the pod was handed by a step -/
def finished (setup : Setup σ) (e : RunEvent σ) : List Observation :=
  match e.before.phase with
  | .finishing _ f => (e.shown setup).filterMap fun s => (f.watch.absorb s).2
  | _ => []

theorem finished_of_phase (setup : Setup σ) (h : ∀ spec f, e.before.phase ≠ .finishing spec f) :
    e.finished setup = [] := by
  unfold finished
  split
  next spec f hp => exact absurd hp (h spec f)
  next => rfl

theorem finished_of_shown (h : e.shown setup = []) : e.finished setup = [] := by
  unfold finished
  rw [h]
  split <;> rfl

theorem finished_of_look {spec : PodSpec} {f : Finishing} {s : PodSnapshot}
    (hp : e.before.phase = .finishing spec f) (hs : e.shown setup = [s]) :
    e.finished setup = (f.watch.absorb s).2.toList := by
  simp only [finished, hp, hs]
  cases h : (f.watch.absorb s).2 with
  | none => exact List.filterMap_cons_none h
  | some o => exact List.filterMap_cons_some h

theorem length_finished {spec : PodSpec} {f : Finishing} {watch : Watch}
    {outcome : Watch.Outcome} {warnings : List Warning}
    (hp : e.before.phase = .finishing spec f)
    (ha : f.watch.answer f.polls (e.seen.fetch setup.platform spec.ref).1 =
      (watch, some outcome, warnings))
    (hcalls : e.left.calls = (e.seen.fetch setup.platform spec.ref).2.calls) :
    (e.finished setup).length = outcome.toOption.toList.length := by
  have hshown := shown_of_fetch hcalls
  have hlook := Watch.look_of_answer ha
  generalize (e.seen.fetch setup.platform spec.ref).1 = answer at hshown hlook
  cases hlook with
  | refused =>
    rw [finished_of_shown hshown]
    rfl
  | handed hs | nothingLeft hs | podFinished hs | limitReached hs =>
    rw [finished_of_look hp hshown, hs]
    rfl

end RunEvent

/-! ## the steps that a run has left -/

theorem Run.length_of_joinable? {tasks rest : List LogTask} {t : LogTask}
    (h : joinable? tasks = some (t, rest)) : tasks.length = rest.length + 1 := by
  induction tasks generalizing rest with
  | nil => cases h
  | cons u tasks ih =>
    unfold joinable? at h
    split at h
    next =>
      cases h
      rfl
    next =>
      rw [Option.map_eq_some_iff] at h
      obtain ⟨⟨v, others⟩, hjoin, heq⟩ := h
      cases heq
      rw [List.length_cons, List.length_cons, ih hjoin]

namespace Run

variable {setup : Setup σ} {r r' : Run} {w w' : World σ} {past : List (RunEvent σ)}

/-- The steps that a run has left at most, but for the joins of its log tasks, if no container is
handed out any more and no wait takes more than `limit` looks.  A look takes two steps. -/
def work (limit : Nat) (r : Run) : Nat :=
  match r.phase with
  | .start => 4 * limit + 6
  | .creating _ => 4 * limit + 5 - r.timer.asked.toNat
  | .streaming _ s => 2 * (limit - s.polls) + 2 * limit + 3 - r.timer.asked.toNat
  | .announcing .. | .joining .. => 2 * limit + 3
  | .finishing _ f => 2 * (limit - f.polls) + 2 - r.timer.asked.toNat
  | .deleting .. => 2 - r.timer.asked.toNat
  | .ended _ | .panicked => 0

/-- whether the wait under way, if there is one, keeps to a limit -/
def Limited (limit : Nat) (r : Run) : Prop :=
  match r.phase with
  | .streaming _ s => s.watch.limit = limit ∧ s.polls < limit
  | .announcing _ s _ => s.watch.limit = limit
  | .finishing _ f => f.watch.limit = limit ∧ f.polls < limit
  | _ => True

/-- a run that has gone on from where it was, with the same log tasks, and has at most `n` steps
left but for their joins -/
structure Leaves (limit n : Nat) (r r' : Run) : Prop where
  limited : r'.Limited limit
  work : r'.work limit ≤ n
  tasks : r'.tasks = r.tasks
  started : r'.started = r.started

theorem leaves_closeFinishing (limit : Nat) (setup : Setup σ) (r : Run) (spec : PodSpec)
    (report : FinishedPod) (now : Nat) :
    Leaves limit 2 r (r.closeFinishing setup spec report now) := by
  unfold closeFinishing
  dsimp only
  split
  next => exact ⟨trivial, Nat.sub_le 2 _, rfl, rfl⟩
  next => exact ⟨trivial, Nat.zero_le 2, rfl, rfl⟩

/-- after a wait for a container to be done, there may be another one only if it was handed out -/
theorem leaves_afterFinishing {limit : Nat} (hpos : 0 < limit) (setup : Setup σ) (r : Run)
    (spec : PodSpec) {f : Finishing} (hf : f.watch.limit = limit) (now : Nat)
    (outcome : Watch.Outcome) :
    Leaves limit (2 + 2 * limit * outcome.toOption.toList.length) r
      (r.afterFinishing setup spec f now outcome) := by
  have hclose (report : FinishedPod) (n : Nat) :
      Leaves limit (2 + n) r (r.closeFinishing setup spec report now) :=
    have h := leaves_closeFinishing limit setup r spec report now
    { h with work := Nat.le_trans h.work (Nat.le_add_right 2 n) }
  unfold afterFinishing
  split
  next o =>
    dsimp only
    split
    next =>
      refine ⟨⟨hf, hpos⟩, ?_, rfl, rfl⟩
      show 2 * (limit - 0) + 2 - 0 ≤ 2 + 2 * limit * 1
      omega
    next => exact hclose _ _
  next => exact hclose _ _
  next => exact hclose _ _
  next =>
    split
    next => exact ⟨trivial, Nat.le_trans (Nat.sub_le 2 _) (Nat.le_add_right 2 _), rfl, rfl⟩
    next => exact ⟨trivial, Nat.zero_le _, rfl, rfl⟩

theorem leaves_afterJoining {limit : Nat} (hpos : 0 < limit)
    (hlimit : limit = setup.config.pollLimit) (r : Run) (spec : PodSpec)
    (fatal : Option RunError) (now : Nat) :
    Leaves limit (2 * limit + 2) r (r.afterJoining setup spec fatal now) := by
  unfold afterJoining
  dsimp only
  split
  next => exact ⟨⟨hlimit.symm, hpos⟩, Nat.sub_le _ _, rfl, rfl⟩
  next =>
    refine ⟨trivial, ?_, rfl, rfl⟩
    show 2 - 0 ≤ 2 * limit + 2
    omega
  next => exact ⟨trivial, Nat.zero_le _, rfl, rfl⟩

theorem tasks_afterStreaming (r : Run) (spec : PodSpec) (s : Streaming) (now : Nat)
    (outcome : Watch.Outcome) :
    ∃ n, (r.afterStreaming spec s now outcome).tasks.length = r.tasks.length + n ∧
      (r.afterStreaming spec s now outcome).started = r.started + n := by
  unfold afterStreaming
  split
  next => exact ⟨0, rfl, rfl⟩
  next =>
    rw [spawnLate_eq_beginAll]
    refine ⟨_, ?_, rfl⟩
    show (r.tasks ++ _).length = _
    rw [List.length_append, LogTask.length_beginAll]
  next => exact ⟨0, rfl, rfl⟩
  next => exact ⟨0, rfl, rfl⟩

theorem limited_afterStreaming (limit : Nat) (r : Run) (spec : PodSpec) {s : Streaming}
    (hs : s.watch.limit = limit) (now : Nat) (outcome : Watch.Outcome) :
    (r.afterStreaming spec s now outcome).Limited limit ∧
      (r.afterStreaming spec s now outcome).work limit = 2 * limit + 3 := by
  unfold afterStreaming
  split
  next => exact ⟨hs, rfl⟩
  next => exact ⟨trivial, rfl⟩
  next => exact ⟨trivial, rfl⟩
  next => exact ⟨trivial, rfl⟩

theorem tasks_afterNotice (r : Run) (spec : PodSpec) (s : Streaming) (container : String)
    (now : Nat) :
    (r.afterNotice spec s container now).tasks.length = r.tasks.length + 1 ∧
      (r.afterNotice spec s container now).started = r.started + 1 := by
  unfold afterNotice
  exact ⟨List.length_append, rfl⟩

theorem limited_afterNotice {limit : Nat} (hpos : 0 < limit) (r : Run) (spec : PodSpec)
    {s : Streaming} (hs : s.watch.limit = limit) (container : String) (now : Nat) :
    (r.afterNotice spec s container now).Limited limit ∧
      (r.afterNotice spec s container now).work limit ≤ 4 * limit + 3 := by
  unfold afterNotice
  dsimp only
  split
  next =>
    refine ⟨⟨hs, hpos⟩, ?_⟩
    show 2 * (limit - 0) + 2 * limit + 3 - 0 ≤ 4 * limit + 3
    omega
  next =>
    refine ⟨trivial, ?_⟩
    show 2 * limit + 3 ≤ 4 * limit + 3
    omega

/-- What one step of a run may cost: it is one of those that the run has left, where a log task that
is started makes up for a wait, and so does a container that is done. -/
structure Affords (setup : Setup σ) (e : RunEvent σ) : Prop where
  limited : e.after.Limited setup.config.pollLimit
  cost : 1 + e.after.work setup.config.pollLimit + e.after.tasks.length +
      (2 * setup.config.pollLimit + 2) * e.before.started ≤
    e.before.work setup.config.pollLimit + e.before.tasks.length +
      (2 * setup.config.pollLimit + 2) * e.after.started +
      2 * setup.config.pollLimit * (e.finished setup).length

theorem affords_of_leaves {setup : Setup σ} {e : RunEvent σ} {n : Nat}
    (h : Leaves setup.config.pollLimit n e.before e.after)
    (hn : n + 1 ≤ e.before.work setup.config.pollLimit +
      2 * setup.config.pollLimit * (e.finished setup).length) : Affords setup e := by
  refine ⟨h.limited, ?_⟩
  rw [h.tasks, h.started]
  have hwork := h.work
  omega

theorem pollLimit_pos (config : Config) : 0 < config.pollLimit :=
  Nat.lt_of_lt_of_le Nat.zero_lt_one (Nat.le_max_left 1 _)

/-- **What a step of a run costs.** -/
theorem affords_transition {task : Option Nat} (h : r.Limited setup.config.pollLimit)
    (ht : Transition setup r w r' w') : Affords setup ⟨task, r, w, r', w'⟩ := by
  have hpos := pollLimit_pos setup.config
  cases ht with
  | cancelledEarly hp | buildPanicked hp | buildRefused hp =>
    refine affords_of_leaves ⟨trivial, Nat.le_refl 0, rfl, rfl⟩ ?_
    simp only [work, hp]
    omega
  | built hp =>
    refine affords_of_leaves ⟨trivial, Nat.sub_le _ _, rfl, rfl⟩ ?_
    simp only [work, hp]
    omega
  | asked hp _ ht =>
    obtain ⟨hbefore, hafter⟩ := Timer.asked_of_turn ht
    refine affords_of_leaves ⟨h, Nat.le_refl _, rfl, rfl⟩ ?_
    unfold call? at hp
    unfold Limited at h
    simp only [work, hbefore, hafter]
    split at hp <;> simp_all
  | createRefused hp ht =>
    refine affords_of_leaves ⟨trivial, Nat.le_refl 0, rfl, rfl⟩ ?_
    simp only [work, hp, Timer.go_of_turn ht, Bool.toNat_true]
    omega
  | created hp ht =>
    refine affords_of_leaves ⟨⟨rfl, hpos⟩, Nat.sub_le _ _, rfl, rfl⟩ ?_
    simp only [work, hp, Timer.go_of_turn ht, Bool.toNat_true]
    omega
  | cancelled hp =>
    refine ⟨trivial, ?_⟩
    show 1 + 2 + 0 + (2 * setup.config.pollLimit + 2) * r.started ≤
      r.work setup.config.pollLimit + r.tasks.length +
        (2 * setup.config.pollLimit + 2) * r.started + _
    have hleft : 3 ≤ r.work setup.config.pollLimit := by
      have hasked := r.timer.asked.toNat_le
      unfold inHand? at hp
      unfold Limited at h
      unfold work
      split at hp <;> simp_all <;> omega
    omega
  | @streamingLook spec s watch outcome _ hp _ ht ha =>
    simp only [Limited, hp] at h
    obtain ⟨hlimited, hwork⟩ := limited_afterStreaming setup.config.pollLimit r spec
      (s := { s with watch }) ((Watch.look_of_answer ha).limit_eq.trans h.1) w.now outcome
    refine ⟨hlimited, ?_⟩
    obtain ⟨n, htasks, hstarted⟩ := tasks_afterStreaming r spec { s with watch } w.now outcome
    have hbefore : 2 * setup.config.pollLimit + 4 ≤ r.work setup.config.pollLimit := by
      simp only [work, hp, Timer.go_of_turn ht, Bool.toNat_true]
      omega
    have hmakes : n ≤ (2 * setup.config.pollLimit + 2) * n :=
      Nat.le_mul_of_pos_left n (Nat.succ_pos _)
    dsimp only
    rw [hwork, htasks, hstarted, Nat.mul_add]
    omega
  | @streamingAgain spec s watch _ hp _ ht ha =>
    simp only [Limited, hp] at h
    obtain ⟨-, -, -, hlimit, -⟩ := Watch.idle_of_again ha
    rw [h.1] at hlimit
    refine affords_of_leaves (n := r.work setup.config.pollLimit - 1)
      ⟨⟨(Watch.look_of_answer ha).limit_eq.trans h.1, hlimit⟩, ?_, rfl, rfl⟩ ?_
    all_goals
      simp only [work, hp, goToAfter, Timer.go_of_turn ht, Bool.toNat_true, Bool.toNat_false]
      omega
  | @announced spec s container hp =>
    simp only [Limited, hp] at h
    obtain ⟨hlimited, hwork⟩ := limited_afterNotice hpos r spec h container w.now
    obtain ⟨htasks, hstarted⟩ := tasks_afterNotice r spec s container w.now
    refine ⟨hlimited, ?_⟩
    dsimp only
    rw [htasks, hstarted, Nat.mul_add]
    simp only [work, hp] at hwork ⊢
    omega
  | joinedPanicked hp _ hj | joined hp _ hj =>
    refine ⟨by simp only [Limited, hp], ?_⟩
    simp only [work, hp, length_of_joinable? hj]
    omega
  | joinedAll hp =>
    refine affords_of_leaves (leaves_afterJoining hpos rfl r _ _ w.now) ?_
    simp only [work, hp]
    omega
  | @finishingLook spec f watch outcome _ hp _ ht ha =>
    simp only [Limited, hp] at h
    refine affords_of_leaves (leaves_afterFinishing hpos setup r spec (f := { f with watch })
      ((Watch.look_of_answer ha).limit_eq.trans h.1) w.now outcome) ?_
    rw [RunEvent.length_finished hp ha rfl]
    simp only [work, hp, Timer.go_of_turn ht, Bool.toNat_true]
    omega
  | @finishingAgain spec f watch _ hp _ ht ha =>
    simp only [Limited, hp] at h
    obtain ⟨-, -, -, hlimit, -⟩ := Watch.idle_of_again ha
    rw [h.1] at hlimit
    refine affords_of_leaves (n := r.work setup.config.pollLimit - 1)
      ⟨⟨(Watch.look_of_answer ha).limit_eq.trans h.1, hlimit⟩, ?_, rfl, rfl⟩ ?_
    all_goals
      simp only [work, hp, goToAfter, Timer.go_of_turn ht, Bool.toNat_true, Bool.toNat_false]
      omega
  | deleteRefused hp ht | deleted hp ht =>
    refine affords_of_leaves ⟨trivial, Nat.le_refl 0, rfl, rfl⟩ ?_
    simp only [work, hp, Timer.go_of_turn ht, Bool.toNat_true]
    omega

/-- a run whose waits keep to their limit, and the steps that it has made so far -/
structure Paced (setup : Setup σ) (past : List (RunEvent σ)) (r : Run) : Prop where
  limited : r.Limited setup.config.pollLimit
  steps : (stepsOf none past).length + r.work setup.config.pollLimit + r.tasks.length ≤
    4 * setup.config.pollLimit + 6 + (2 * setup.config.pollLimit + 2) * r.started +
      2 * setup.config.pollLimit * (past.flatMap (·.finished setup)).length

theorem Paced.event {e : RunEvent σ} (h : Paced setup past e.before) (hv : e.Valid setup) :
    Paced setup (past ++ [e]) e.after := by
  have hsteps := h.steps
  unfold RunEvent.Valid at hv
  split at hv
  next he =>
    have haffords : Affords setup e := affords_transition h.limited (transition_of_act hv)
    refine ⟨haffords.limited, ?_⟩
    have hcost := haffords.cost
    rw [← he, stepsOf_concat_self, he, List.length_append, List.length_singleton,
      RunEvent.flatMap_concat, List.length_append, Nat.mul_add]
    omega
  next id he =>
    obtain ⟨t, result, -, -, -, hafter⟩ := transition_of_actTask hv
    have hne : e.task ≠ none := by
      rw [he]
      simp
    refine ⟨by rw [hafter]; exact h.limited, ?_⟩
    rw [stepsOf_concat_of_ne hne, RunEvent.flatMap_concat, List.length_append, Nat.mul_add, hafter]
    show _ + e.before.work _ + (putTask result.task e.before.tasks).length ≤
      _ + (2 * setup.config.pollLimit + 2) * e.before.started + _
    rw [putTask, List.length_map]
    omega

end Run

/-! ## the steps of a log task -/

namespace LogTask

variable {setup : Setup σ} {t : LogTask} {past : List (RunEvent σ)} {e : RunEvent σ}
  {result : Result σ}

/-- the steps that a log task has left until it has opened its stream, or has read it to the end:
a line takes two -/
def work (t : LogTask) : Nat :=
  match t.phase with
  | .opening timer => 2 - timer.asked.toNat
  | .forwarding scanner _ line => 2 * scanner.lines.length + line.toList.length + 1
  | .ended | .panicked => 0

/-- a log task that has made the steps `past`, no more than the lines that it was to read take -/
def Paced (setup : Setup σ) (past : List (RunEvent σ)) (t : LogTask) : Prop :=
  past.length + t.work ≤ 2 + (past.flatMap (·.openings setup)).length +
    2 * ((past.flatMap (·.openings setup)).flatMap (·.2.lines setup.config.sanitize)).length

theorem paced_begin (h : t.isOpening = true) : t.Paced setup [] := by
  unfold isOpening at h
  unfold Paced work
  split at h <;> simp_all

theorem Paced.transition (h : t.Paced setup past)
    (ht : Transition setup.platform setup.config.sanitize t e.seen result)
    (hl : e.left = result.world) : result.task.Paced setup (past ++ [e]) := by
  -- what a step that opens the stream, or that does not, may add
  have hadds {opened : List (String × LogOpening)} (ho : e.openings setup = opened)
      (hwork : result.task.work + 1 ≤
        t.work + opened.length + 2 * (opened.flatMap (·.2.lines setup.config.sanitize)).length) :
      result.task.Paced setup (past ++ [e]) := by
    unfold Paced at h ⊢
    rw [RunEvent.flatMap_concat, ho, List.flatMap_append, List.length_append, List.length_append,
      List.length_append, List.length_singleton]
    omega
  have hquiet (hc : result.world.calls = e.seen.calls) : e.openings setup = [] :=
    RunEvent.openings_of_no_call (by rw [hl]; exact hc)
  have hopened (hc : result.world.calls =
        ⟨e.seen.now, t.pod, .opened t.container⟩ :: e.seen.calls) :
      e.openings setup =
        [(t.container, (setup.platform.openLogs t.pod t.container e.seen.state).1)] :=
    RunEvent.openings_of_opened (by rw [hl]; exact hc)
  cases ht with
  | asked hp ht =>
    obtain ⟨hbefore, hafter⟩ := Timer.asked_of_turn ht
    refine hadds (hquiet rfl) ?_
    simp [work, goTo, hp, hbefore, hafter]
  | openPanicked hp ht | openRefused hp ht =>
    refine hadds (hopened rfl) ?_
    simp only [work, goTo, fail, hp, Timer.go_of_turn ht, Bool.toNat_true, List.length_singleton]
    omega
  | opened hp ht ha =>
    have ho := hopened rfl
    rw [ha] at ho
    refine hadds ho ?_
    simp only [work, goTo, hp, Timer.go_of_turn ht, Bool.toNat_true, List.length_singleton,
      List.flatMap_singleton, LogOpening.lines, Option.toList_none, List.length_nil]
    omega
  | read hp _ ha =>
    refine hadds (hquiet rfl) ?_
    simp only [work, goTo, hp, Log.Scanner.lines_of_advance ha, List.length_cons,
      Option.toList_none, Option.toList_some, List.length_nil]
    omega
  | @closed scanner scanner' times warnings hp =>
    obtain ⟨htask, hcalls, -⟩ := close_task t scanner' (e.seen.warn warnings)
    refine hadds (hquiet hcalls) ?_
    rw [htask]
    simp [work, hp]
  | stopped hp =>
    refine hadds (hquiet rfl) ?_
    simp [work, goTo, hp]
  | sent hp =>
    refine hadds (hquiet rfl) ?_
    simp [work, goTo, hp]

end LogTask

/-! ## every schedule -/

namespace Run

variable {setup : Setup σ} {past : List (RunEvent σ)} {r : Run} {e : RunEvent σ}

/-- a run with all log tasks that it has started, none of which makes more steps than it should -/
def Thrifty (setup : Setup σ) (past : List (RunEvent σ)) (r : Run) : Prop :=
  ∃ all, Staff setup past all r ∧ ∀ t ∈ all, t.Paced setup (stepsOf (some t.id) past)

theorem Thrifty.event (h : Thrifty setup past e.before) (hv : e.Valid setup) :
    Thrifty setup (past ++ [e]) e.after := by
  obtain ⟨all, hstaff, hall⟩ := h
  unfold RunEvent.Valid at hv
  split at hv
  next he =>
    obtain ⟨new, hforks⟩ := forks_of_transition (transition_of_act hv)
    refine ⟨all ++ new, hstaff.fork he hforks, fun t ht => ?_⟩
    have hne : e.task ≠ some t.id := by
      rw [he]
      simp
    rw [stepsOf_concat_of_ne hne]
    obtain ht | ht := List.mem_append.1 ht
    · exact hall t ht
    · obtain ⟨hid, -, hopening, -⟩ := hforks.mem_new ht
      rw [hstaff.stepsOf_eq_nil (by rw [← hstaff.started]; exact hid)]
      exact LogTask.paced_begin hopening
  next id he =>
    obtain ⟨t, result, hfind, ht, hleft, hafter⟩ := transition_of_actTask hv
    have hlive := List.mem_of_find?_eq_some hfind
    have hid : t.id = id := by simpa using List.find?_some hfind
    have htask : e.task = some t.id := he.trans (congrArg some hid.symm)
    refine ⟨_, hstaff.advance htask hlive ht hleft hafter, fun u hu => ?_⟩
    have hsame := (ht.outputs hleft).1
    rcases mem_putTask hu with rfl | ⟨hu, hne⟩
    · rw [hsame, ← htask, stepsOf_concat_self, htask]
      exact (hall t (hstaff.live.subset hlive)).transition ht hleft
    · rw [stepsOf_concat_of_ne]
      · exact hall u hu
      · rw [htask, ← hsame]
        exact fun heq => hne (Option.some.inj heq).symm

/-- How many steps a run and its log tasks may have made: a run no more than its waits take, one for
each log task that it has started and one for each container that was done, and a log task no more
than its lines take. -/
structure Frugal (setup : Setup σ) (past : List (RunEvent σ)) (r : Run) : Prop where
  own : (stepsOf none past).length ≤
    4 * setup.config.pollLimit + 6 + (2 * setup.config.pollLimit + 2) * r.started +
      2 * setup.config.pollLimit * (past.flatMap (·.finished setup)).length
  tasks : ∀ id : Nat, (stepsOf (some id) past).length ≤
    2 + ((stepsOf (some id) past).flatMap (·.openings setup)).length +
      2 * (((stepsOf (some id) past).flatMap (·.openings setup)).flatMap
        (·.2.lines setup.config.sanitize)).length

theorem frugal (hpaced : Paced setup past r) (hthrifty : Thrifty setup past r) :
    Frugal setup past r := by
  have hsteps := hpaced.steps
  refine ⟨by omega, fun id => ?_⟩
  obtain ⟨all, hstaff, hall⟩ := hthrifty
  cases hget : all[id]? with
  | none =>
    rw [hstaff.stepsOf_eq_nil (List.getElem?_eq_none_iff.1 hget)]
    exact Nat.zero_le _
  | some t =>
    have htask := hall t (List.mem_of_getElem? hget)
    rw [hstaff.numbered id t hget] at htask
    exact Nat.le_trans (Nat.le_add_right _ _) htask

end Run

namespace Crew

variable {setup : Setup σ} {c : Crew σ} {i : Nat} {r : Run} {step : StepDefinition}

theorem frugal_of_begin (hr : c.runs[i]? = some r) (hl : r.Limited setup.config.pollLimit)
    (hw : r.work setup.config.pollLimit ≤ 4 * setup.config.pollLimit + 6) (hs : r.started = 0)
    (ht : r.tasks = []) (moves : List Move) :
    ∃ r', (c.play setup moves).runs[i]? = some r' ∧
      Run.Frugal setup (c.events setup i moves) r' := by
  have hpaced : Run.Paced setup [] r := ⟨hl, by simpa [Run.stepsOf, ht, hs] using hw⟩
  obtain ⟨r', hr', hpaced, hthrifty⟩ := play_induction
    (Q := fun past r => Run.Paced setup past r ∧ Run.Thrifty setup past r)
    (fun _ _ h hv => ⟨h.1.event hv, h.2.event hv⟩) moves hr
    ⟨hpaced, [], Run.staff_begin hs ht, by simp⟩
  exact ⟨r', hr', Run.frugal hpaced hthrifty⟩

/-- **No wait is endless**: under every schedule, the steps that a run and its log tasks make are
limited by the log tasks that it has started, the containers that were done, and the lines. -/
theorem frugal_of_play (setup : Setup σ) (hr : c.runs[i]? = some { step }) (moves : List Move) :
    ∃ r, (c.play setup moves).runs[i]? = some r ∧ Run.Frugal setup (c.events setup i moves) r :=
  frugal_of_begin hr trivial (Nat.le_refl _) rfl rfl moves

end Crew

end StepRunner
