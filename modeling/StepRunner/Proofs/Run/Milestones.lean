import StepRunner.Proofs.Run.Outlook

/-!
# The milestones of a step

Where no one is late, it is settled from the start what a run calls on the platform, and when.  A
run goes on when its call has its effect, and at once where it has none; where its log tasks are to
be joined, it goes on when the last of them is over.

The milestones of a step are the points of its run between its own steps, with all that its log
tasks have to do done in time.  All that they take of the reader is whether there is one, and there
is nothing to choose.

* `Run.restart`              the timer of a run that has come to a phase
* `Milestone`, `milestones`  a point of a run between its own steps, and all of them
* `Milestone.due`            when the run goes on from there
* `Milestone.Met`            a run that is at a milestone, and in time
* `Met.run`                  a step of the run takes it to the next one, or leaves it where it is
* `Met.task`, `Met.tick`     steps of its log tasks and of the clock leave it there
* `milestones_eq_of_isOver`  the milestones come to one end
-/

namespace StepRunner

variable {σ : Type}

/-! ## when a run goes on -/

namespace Run

variable {E : FailuresLike} {setup : Setup σ} {config : Config} {r r' q : Run} {w w' : World σ}
  {phase phase' : Phase} {now : Nat}

theorem Like.call?_eq (h : r.Like E q) : r.call? = q.call? := by
  have hphase := h.phase
  unfold call?
  generalize r.phase = phase at hphase
  generalize q.phase = phase' at hphase
  cases hphase <;> rfl

/-- the timer of a run that has come to a phase: it goes on at once, but for a look that is to be
made again -/
def restart (config : Config) (phase : Phase) (now : Nat) : Timer :=
  let again (polls : Nat) : Timer :=
    ⟨if polls = 0 then now else wakeTime now config.pollInterval.toNat, false⟩
  match phase with
  | .streaming _ s => again s.polls
  | .finishing _ f => again f.polls
  | _ => ⟨now, false⟩

theorem le_restart (config : Config) (phase : Phase) (now : Nat) :
    now ≤ (restart config phase now).wake := by
  have hagain (polls : Nat) :
      now ≤ if polls = 0 then now else wakeTime now config.pollInterval.toNat := by
    split
    · exact Nat.le_refl now
    · exact le_wakeTime ..
  unfold restart
  split
  · exact hagain _
  · exact hagain _
  · exact Nat.le_refl now

theorem restart_like (h : phase.Like E phase') :
    restart config phase now = restart config phase' now := by
  cases h with
  | streaming _ hs => simp only [restart, hs.polls]
  | finishing _ hf => simp only [restart, hf.polls]
  | _ => rfl

theorem timer_closeFinishing (setup : Setup σ) (r : Run) (spec : PodSpec) (report : FinishedPod)
    (now : Nat) :
    let after := r.closeFinishing setup spec report now
    after.timer = restart config after.phase now := by
  unfold closeFinishing
  dsimp only
  split <;> rfl

theorem leads_of_act_self (E : FailuresLike) (hact : r.act setup w = some (r', w'))
    (hunfired : w.cancelled = false) : Leads E setup setup Eq ⟨none, r, w, r', w'⟩ := by
  obtain ⟨name, hname⟩ : ∃ name, ∀ spec, r.spec? = some spec → spec.name = name :=
    ⟨(r.spec?.map (·.name)).getD "", fun spec hs => by simp [hs]⟩
  exact leads_of_act hact hunfired (setup.platform.alike_self name) hname

theorem not_due_of_ask {call : Call} {spec : PodSpec} {timer : Timer}
    (hcall : r.call? = some (call, spec)) (ht : r.turn setup w call spec.ref = .ask timer) :
    ¬ r.Due w := by
  intro hdue
  obtain ⟨-, hasked⟩ := hdue.call (by simp [hcall])
  obtain ⟨hunasked, -⟩ := Timer.asked_of_turn ht
  rw [hasked] at hunasked
  cases hunasked

theorem not_due_of_joinable {spec : PodSpec} {fatal : Option RunError} {task : LogTask}
    {tasks : List LogTask} (hp : r.phase = .joining spec fatal)
    (hj : joinable? r.tasks = some (task, tasks)) : ¬ r.Due w := by
  intro hdue
  rw [hdue.joined _ _ hp] at hj
  cases hj

/-- when a run goes on after a step for which there was nothing to wait any more -/
theorem Transition.timer_of_due (ht : Transition setup r w r' w') (hdue : r.Due w) :
    r'.timer = restart setup.config r'.phase w.now := by
  cases ht with
  | asked hcall _ ht => exact absurd hdue (not_due_of_ask hcall ht)
  | joinedPanicked hp _ hj | joined hp _ hj => exact absurd hdue (not_due_of_joinable hp hj)
  | streamingLook =>
    unfold afterStreaming
    split <;> rfl
  | announced =>
    unfold afterNotice
    dsimp only
    split <;> rfl
  | joinedAll =>
    unfold afterJoining
    dsimp only
    split <;> rfl
  | finishingLook =>
    unfold afterFinishing
    split
    · dsimp only
      split
      · rfl
      · exact timer_closeFinishing ..
    · exact timer_closeFinishing ..
    · exact timer_closeFinishing ..
    · split <;> rfl
  | _ => rfl

end Run

/-! ## milestones -/

/-- a point of a run between its own steps: a run without log tasks, and its world -/
structure Milestone (σ : Type) where
  run : Run
  world : World σ
  /-- when the last of its log tasks so far is over -/
  horizon : Nat
  /-- whether the streams of its log tasks so far are all among those that are considered -/
  suits : Bool

namespace Milestone

/-- when the run goes on from there -/
def due (setup : Setup σ) (x : Milestone σ) : Nat :=
  match x.run.call? with
  | some (call, spec) => x.run.timer.effect (setup.platform.delay call spec.ref x.world.state)
  | none =>
    match x.run.phase with
    | .joining .. => max x.world.now x.horizon
    | _ => x.world.now

/-- the point where a run is after a step, if its new log tasks do in time all that they have to do
-/
def absorb (setup : Setup σ) (a : Audience setup.config.sanitize) (x : Milestone σ) (r : Run)
    (w : World σ) : Milestone σ :=
  let outlooks := r.tasks.map (·.outlook setup a w.state)
  { run := { r with
      tasks := []
      failures := r.failures ++ outlooks.flatMap (·.failures) }
    world := { w with calls := (outlooks.flatMap (·.calls)).reverse ++ w.calls }
    horizon := (outlooks.map (·.leaves)).foldl max x.horizon
    suits := x.suits && outlooks.all (·.suits) }

theorem horizon_absorb (setup : Setup σ) (a : Audience setup.config.sanitize) (x : Milestone σ)
    (r : Run) (w : World σ) :
    let leaves := (r.tasks.map (·.outlook setup a w.state)).map (·.leaves)
    (absorb setup a x r w).horizon ∈ x.horizon :: leaves ∧
      ∀ time ∈ x.horizon :: leaves, time ≤ (absorb setup a x r w).horizon :=
  List.max?_eq_some_iff.1 List.max?_cons'

theorem record_absorb (setup : Setup σ) (a : Audience setup.config.sanitize) (x : Milestone σ)
    (r : Run) (w : World σ) :
    (absorb setup a x r w).world.record =
      w.record ++ r.tasks.flatMap fun t => (t.outlook setup a w.state).calls := by
  rw [World.record_of_append (w := w) rfl, List.flatMap_map]

/-- the run when it is time to go on -/
def awake (x : Milestone σ) : Run := { x.run with timer := ⟨0, true⟩ }

/-- the world at this time -/
def dawn (setup : Setup σ) (x : Milestone σ) : World σ := { x.world with now := x.due setup }

/-- the next point; the last one stays -/
def next (setup : Setup σ) (a : Audience setup.config.sanitize) (x : Milestone σ) : Milestone σ :=
  match x.awake.act setup (x.dawn setup) with
  | some (r, w) => absorb setup a x r w
  | none => x

/-- A point where nothing but time keeps the run from its next step. -/
structure Clear (x : Milestone σ) : Prop where
  tasks : x.run.tasks = []
  unfired : x.world.cancelled = false
  isClosed : x.world.channel.isOpen = false

variable {setup : Setup σ} {a : Audience setup.config.sanitize} {x : Milestone σ}

theorem Clear.ready (h : x.Clear) : x.awake.Ready (x.dawn setup) := by
  refine ⟨h.unfired, ?_, fun _ => ⟨Nat.zero_le _, rfl⟩⟩
  show x.world.channel.canSend = true
  rw [Channel.canSend, h.isClosed]
  rfl

theorem Clear.next (h : x.Clear) : (x.next setup a).Clear := by
  unfold Milestone.next
  split
  next r w hact =>
    have ht := Run.transition_of_act hact
    exact ⟨rfl, ht.agrees.cancelled.trans h.unfired, ht.grows.1.trans h.isClosed⟩
  next => exact h

theorem next_of_isOver (h : x.run.isOver = true) : x.next setup a = x := by
  have hact : x.awake.act setup (x.dawn setup) = none := by
    rw [Run.act_eq_none_iff]
    unfold Run.isOver at h
    unfold Run.Rests
    split at h <;> simp_all [awake]
  rw [next, hact]

theorem due_of_call {call : Call} {spec : PodSpec} (h : x.run.call? = some (call, spec)) :
    x.due setup =
      x.run.timer.effect (setup.platform.delay call spec.ref x.world.state) := by
  rw [due, h]

theorem now_le_due (h : x.run.call? = none) : x.world.now ≤ x.due setup := by
  rw [due, h]
  dsimp only
  split
  · exact Nat.le_max_left ..
  · exact Nat.le_refl _

theorem due_of_isOver (setup : Setup σ) (h : x.run.isOver = true) : x.due setup = x.world.now := by
  unfold Run.isOver at h
  unfold due Run.call?
  split at h <;> simp_all

theorem horizon_le_due {spec : PodSpec} {fatal : Option RunError}
    (h : x.run.phase = .joining spec fatal) : x.horizon ≤ x.due setup := by
  have hcall : x.run.call? = none := by rw [Run.call?, h]
  rw [due, hcall, h]
  exact Nat.le_max_right ..

end Milestone

/-- the milestones of a step, from its start in a world -/
def milestones (setup : Setup σ) (a : Audience setup.config.sanitize) (step : StepDefinition)
    (world : World σ) : Nat → Milestone σ
  | 0 =>
    { run := { step }
      world := { world with channel := { room := 0, isOpen := false } }
      horizon := world.now
      suits := true }
  | n + 1 => (milestones setup a step world n).next setup a

section

variable (setup : Setup σ) (a : Audience setup.config.sanitize) (step : StepDefinition)
  {world : World σ}

theorem clear_milestones (hunfired : world.cancelled = false) (n : Nat) :
    (milestones setup a step world n).Clear := by
  induction n with
  | zero => exact ⟨rfl, hunfired, rfl⟩
  | succ n ih => exact ih.next

end

/-! ## at a milestone -/

namespace Milestone

/-- A run that is at a milestone, and in time: what it has done, and what its log tasks have still
to do, is what is done at the milestone. -/
structure Met (setup : Setup σ) (a : Audience setup.config.sanitize) (r : Run) (w : World σ)
    (x : Milestone σ) : Prop where
  like : r.Like List.Perm x.run
  state : w.state = x.world.state
  since : x.world.now ≤ w.now
  call : ∀ call spec, r.call? = some (call, spec) → w.now ≤ r.timer.wake ∧
    r.timer.effect (setup.platform.delay call spec.ref w.state) = x.due setup
  wait : r.call? = none → w.now ≤ x.due setup
  tasks : ∀ t ∈ r.tasks, t.InTime setup a w x.horizon
  reached : x.horizon ≤ w.now ∨
    ∃ t ∈ r.tasks, (t.outlook setup a w.state).leaves = x.horizon
  own : w.record.filter (!·.event.isOpened) = x.world.record.filter (!·.event.isOpened)
  calls : (w.record ++ r.tasks.flatMap fun t => (t.outlook setup a w.state).calls).Perm
    x.world.record
  failures : (r.failures ++ r.tasks.flatMap fun t => (t.outlook setup a w.state).failures).Perm
    x.run.failures
  suits : x.suits = r.tasks.all fun t => (t.outlook setup a w.state).suits

variable {setup : Setup σ} {a : Audience setup.config.sanitize} {step : StepDefinition}
  {r r' q : Run} {w w' v : World σ} {x : Milestone σ}

/-- time that passes while there is something to wait for leaves a run where it is -/
theorem Met.later (h : Met setup a r w x) (hstate : w'.state = w.state)
    (hcalls : w'.calls = w.calls) (hnow : w.now ≤ w'.now)
    (hcall : r.call? ≠ none → w'.now ≤ r.timer.wake)
    (hwait : r.call? = none → w'.now ≤ x.due setup)
    (htasks : ∀ t ∈ r.tasks, ∀ timer, t.phase = .opening timer → w'.now ≤ timer.wake) :
    Met setup a r w' x := by
  have hrecord : w'.record = w.record := congrArg List.reverse hcalls
  refine ⟨h.like, hstate.trans h.state, Nat.le_trans h.since hnow, fun call spec hc => ?_, hwait,
    fun t ht => (h.tasks t ht).congr (by rw [hstate]) (Nat.le_refl _) (htasks t ht), ?_, ?_, ?_,
    ?_, ?_⟩
  · rw [hstate]
    exact ⟨hcall (by simp [hc]), (h.call call spec hc).2⟩
  · rw [hstate]
    exact h.reached.imp_left (Nat.le_trans · hnow)
  · rw [hrecord]
    exact h.own
  · rw [hrecord, hstate]
    exact h.calls
  · rw [hstate]
    exact h.failures
  · rw [hstate]
    exact h.suits

/-- what others do leaves a run where it is -/
theorem Met.frame (h : Met setup a r w x) (hstate : w'.state = w.state)
    (hcalls : w'.calls = w.calls) (hnow : w'.now = w.now) : Met setup a r w' x := by
  refine h.later hstate hcalls (Nat.le_of_eq hnow.symm) (fun hc => ?_) (fun hc => ?_)
    fun t ht timer hp => ?_
  · obtain ⟨⟨call, spec⟩, hc⟩ := Option.ne_none_iff_exists'.1 hc
    rw [hnow]
    exact (h.call call spec hc).1
  · rw [hnow]
    exact h.wait hc
  · rw [hnow]
    exact (h.tasks t ht).punctual timer hp

theorem Met.join (h : Met setup a r w x) {task : LogTask} {tasks : List LogTask}
    (hj : Run.joinable? r.tasks = some (task, tasks)) (warnings : List Warning) :
    Met setup a { r with
      tasks
      failures := r.failures ++ if task.isPanicked then [Run.panicError task] else [] }
        (w.warn warnings) x := by
  obtain ⟨hover, -, -⟩ := Run.joinable?_spec hj
  obtain ⟨front, back, hsplit, rfl⟩ := Run.exists_split_of_joinable? hj
  have hleft : task.outlook setup a w.state = _ := LogTask.outlook_of_isOver hover
  have hmem {t : LogTask} (ht : t ∈ front ++ back) : t ∈ r.tasks :=
    hsplit ▸ List.perm_middle.mem_iff.2 (List.mem_cons_of_mem task ht)
  have hreached := h.reached
  have hcalls := h.calls
  have hfailures := h.failures
  have hsuits := h.suits
  rw [hsplit] at hreached hcalls hfailures hsuits
  have htasks (t : LogTask) (ht : t ∈ front ++ back) :
      t.InTime setup a (w.warn warnings) x.horizon :=
    have hbefore := h.tasks t (hmem ht)
    hbefore.congr rfl (Nat.le_refl _) hbefore.punctual
  refine ⟨{ h.like with }, h.state, h.since, h.call, h.wait, htasks, ?_, h.own, ?_, ?_, ?_⟩
  · rcases hreached with hreached | ⟨t, ht, hleaves⟩
    · exact .inl hreached
    · rcases List.mem_cons.1 (List.perm_middle.mem_iff.1 ht) with rfl | ht
      · rw [hleft] at hleaves
        exact .inl (hleaves ▸ Nat.zero_le _)
      · exact .inr ⟨t, ht, hleaves⟩
  · have hcalls := perm_of_join hcalls
    rw [hleft, List.append_nil] at hcalls
    exact hcalls
  · have hfailures := perm_of_join hfailures
    rw [hleft] at hfailures
    exact hfailures
  · rw [List.all_append, List.all_cons, hleft, Bool.true_and, ← List.all_append] at hsuits
    exact hsuits

/-- what a log task does in time it has not to do any more -/
theorem Met.advance (h : Met setup a r w x) {t u : LogTask} {front back : List LogTask}
    (hsplit : r.tasks = front ++ t :: back) {made : List CallRecord} {failed : List RunError}
    (ha : t.Advances setup a w u made failed) (hcalls : w'.calls = made.reverse ++ w.calls)
    (hstate : w'.state = w.state) (hnow : w'.now = w.now) :
    Met setup a { r with tasks := front ++ u :: back, failures := r.failures ++ failed } w' x := by
  have hrecord := World.record_of_append hcalls
  have hmem {s : LogTask} (hs : s = t ∨ s ∈ front ++ back) : s ∈ r.tasks :=
    hsplit ▸ List.perm_middle.mem_iff.2 (List.mem_cons.2 hs)
  have hreached := h.reached
  have hcalls₀ := h.calls
  have hfailures₀ := h.failures
  have hsuits₀ := h.suits
  rw [hsplit] at hreached hcalls₀ hfailures₀ hsuits₀
  refine ⟨{ h.like with }, hstate.trans h.state, hnow.symm ▸ h.since, ?_, ?_, fun s hs => ?_, ?_,
    ?_, ?_, ?_, ?_⟩
  · rw [hstate, hnow]
    exact h.call
  · rw [hnow]
    exact h.wait
  · have hbefore : s.InTime setup a w x.horizon := by
      rcases List.mem_cons.1 (List.perm_middle.mem_iff.1 hs) with rfl | hs
      · exact ha.inTime (h.tasks t (hmem (.inl rfl)))
      · exact h.tasks s (hmem (.inr hs))
    refine hbefore.congr (by rw [hstate]) (Nat.le_refl _) ?_
    rw [hnow]
    exact hbefore.punctual
  · rw [hstate, hnow]
    rcases hreached with hreached | ⟨s, hs, hleaves⟩
    · exact .inl hreached
    · rcases List.mem_cons.1 (List.perm_middle.mem_iff.1 hs) with rfl | hs
      · rcases ha.last with hsame | hlast
        · exact .inr ⟨u, List.mem_append_right _ List.mem_cons_self, hsame.symm.trans hleaves⟩
        · -- all is there that it waits for
          exact .inl (Nat.le_trans (Nat.le_of_eq hleaves.symm) hlast)
      · exact .inr ⟨s, List.perm_middle.mem_iff.2 (List.mem_cons_of_mem u hs), hleaves⟩
  · rw [hrecord, List.filter_append, own_eq_nil ha.opened, List.append_nil]
    exact h.own
  · rw [hrecord, hstate]
    exact perm_of_advance hcalls₀ ha.calls
  · rw [hstate]
    exact perm_of_advance hfailures₀ ha.failures
  · rw [hsuits₀, hstate, List.all_append, List.all_append, List.all_cons, List.all_cons]
    exact congrArg (fun suited => _ && (suited && _)) ha.suits

theorem Met.task (h : Met setup a r w x) (hsteady : setup.platform.Steady)
    (hgrown : r.Grown setup step) (hopen : w.channel.isOpen = a.heard) {id : Nat}
    (hmade : r.actTask setup id w = some (r', w'))
    (hsuits : (∀ o ∈ (⟨some id, r, w, r', w'⟩ : RunEvent σ).openings setup,
      a.suits w.now o.2 = true) ∨ x.suits = true) : Met setup a r' w' x := by
  obtain ⟨t, result, hfind, ht, rfl, rfl⟩ := Run.transition_of_actTask hmade
  have hmem := List.mem_of_find?_eq_some hfind
  obtain ⟨front, back, hsplit, hput⟩ := hgrown.exists_split hmem
  obtain ⟨hid, -, -, -⟩ := ht.outputs (e := ⟨none, r, w, r, result.world⟩) rfl
  have hintime := h.tasks t hmem
  have hsuited : result.task.isOpening = t.isOpening ∨ t.isSuited setup a w.state = true := by
    rcases hsuits with hsuits | hsuits
    · exact ht.suited_of_openings rfl hintime hsuits
    · rw [h.suits, List.all_eq_true] at hsuits
      exact .inr (hsuits t hmem)
  obtain ⟨made, hcalls, hadvances⟩ := LogTask.outlook_of_transition ht hintime hopen hsuited
  rw [hput result.task hid]
  exact h.advance hsplit hadvances hcalls (ht.state_eq hsteady) ht.agrees.now

/-- where there is nothing to wait for any more, it is time to go on -/
theorem Met.now_eq (h : Met setup a r w x) (hdue : r.Due w) : w.now = x.due setup := by
  cases hc : r.call? with
  | some c =>
    obtain ⟨call, spec⟩ := c
    obtain ⟨hle, heffect⟩ := h.call call spec hc
    obtain ⟨hge, hasked⟩ := hdue.call (by simp [hc])
    rw [← heffect, Timer.effect, if_pos hasked]
    exact Nat.le_antisymm hle hge
  | none =>
    refine Nat.le_antisymm (h.wait hc) ?_
    rw [due, ← h.like.call?_eq, hc]
    dsimp only
    split
    next spec fatal hp =>
      have hphase := h.like.phase
      rw [hp] at hphase
      obtain hr : r.phase = .joining spec fatal := by
        generalize r.phase = phase at hphase
        cases hphase
        rfl
      -- all log tasks have been joined
      refine Nat.max_le.2 ⟨h.since, h.reached.resolve_right ?_⟩
      rintro ⟨t, ht, -⟩
      rw [hdue.joined spec fatal hr] at ht
      cases ht
    next => exact h.since

/-- At the next milestone, the log tasks that were started, `q.tasks`, have done what they have
still to do. -/
theorem Met.fork (h : Met setup a r w x) (hlike : r'.Like List.Perm q) (hstate : w'.state = v.state)
    (hnow : w'.now = w.now) (hthen : v.now = w.now) (htimer : r'.timer = q.timer)
    (hlater : w.now ≤ q.timer.wake) (hnew : r'.tasks = r.tasks ++ q.tasks)
    (hbegun : ∀ t ∈ q.tasks, t.phase = .opening ⟨w.now, false⟩)
    (hkeep : ∀ t ∈ r.tasks, t.outlook setup a v.state = t.outlook setup a w.state)
    (hfailures : r'.failures = r.failures) (hfailures' : q.failures = x.run.failures)
    {made : List CallRecord} (hcalls : w'.record = w.record ++ made)
    (hcalls' : v.record = x.world.record ++ made) : Met setup a r' w' (absorb setup a x q v) := by
  obtain ⟨hlast, hall⟩ := horizon_absorb setup a x q v
  have hrecord := record_absorb setup a x q v
  rw [hcalls'] at hrecord
  refine ⟨{ hlike with }, hstate, Nat.le_of_eq (hthen.trans hnow.symm),
    fun call spec hc => ⟨?_, ?_⟩, fun hc => ?_, fun t hmem => ?_, ?_, ?_, ?_, ?_, ?_⟩
  · rw [hnow, htimer]
    exact hlater
  · rw [hlike.call?_eq] at hc
    rw [htimer, hstate]
    exact (due_of_call (x := absorb setup a x q v) hc).symm
  · rw [hlike.call?_eq] at hc
    rw [hnow, ← hthen]
    exact now_le_due (x := absorb setup a x q v) hc
  · rw [hnew] at hmem
    rcases List.mem_append.1 hmem with hmem | hmem
    · have hbefore := h.tasks t hmem
      refine hbefore.congr (by rw [hstate, hkeep t hmem]) (hall _ List.mem_cons_self) ?_
      rw [hnow]
      exact hbefore.punctual
    · refine LogTask.inTime_of_opening (hbegun t hmem) (Nat.le_of_eq hnow) ?_
      rw [hstate]
      exact hall _ (List.mem_cons_of_mem _ (List.mem_map_of_mem (List.mem_map_of_mem hmem)))
  · rw [hstate, hnew]
    rcases List.mem_cons.1 hlast with hlast | hlast
    · rw [hlast, hnow]
      refine h.reached.imp_right ?_
      rintro ⟨t, hmem, hleaves⟩
      exact ⟨t, List.mem_append_left _ hmem, by rw [hkeep t hmem]; exact hleaves⟩
    · obtain ⟨o, ho, hleaves⟩ := List.mem_map.1 hlast
      obtain ⟨t, hmem, rfl⟩ := List.mem_map.1 ho
      exact .inr ⟨t, List.mem_append_right _ hmem, hleaves⟩
  · have hopened : (q.tasks.flatMap fun t => (t.outlook setup a v.state).calls).filter
        (!·.event.isOpened) = [] := by
      refine own_eq_nil fun c hc => ?_
      obtain ⟨t, -, hc⟩ := List.mem_flatMap.1 hc
      exact LogTask.isOpened_of_mem_calls hc
    rw [hcalls, hrecord, List.filter_append, List.filter_append, List.filter_append, hopened,
      h.own, List.append_nil]
  · rw [hcalls, hrecord, hstate, hnew]
    exact perm_of_fork h.calls (fun t ht => by rw [hkeep t ht]) made q.tasks
  · have hperm :=
      perm_of_fork h.failures (fun t ht => congrArg Outlook.failures (hkeep t ht)) [] q.tasks
    rw [List.append_nil, List.append_nil] at hperm
    show (_ : List RunError).Perm (q.failures ++ (q.tasks.map _).flatMap _)
    rw [hfailures, hfailures', hstate, hnew, List.flatMap_map]
    exact hperm
  · have hbefore : (r.tasks.all fun t => (t.outlook setup a v.state).suits) = x.suits := by
      rw [h.suits, Bool.eq_iff_iff, List.all_eq_true, List.all_eq_true]
      exact forall₂_congr fun t hmem => by rw [hkeep t hmem]
    show (x.suits && (q.tasks.map _).all _) = _
    rw [hstate, hnew, List.all_append, hbefore, List.all_map]
    rfl

theorem Met.follow (h : Met setup a r w x) (hx : x.Clear) (hsteady : setup.platform.Steady)
    (hgrown : r.Grown setup step) (hact : r.act setup w = some (r', w')) (hdue : r.Due w)
    (hf : Run.Followed List.Perm setup Eq ⟨none, r, w, r', w'⟩
      ⟨none, x.awake, x.dawn setup, q, v⟩) : Met setup a r' w' (absorb setup a x q v) := by
  obtain ⟨hfollow, hlike, hstate⟩ := hf
  obtain ⟨⟨new, new', hnew, hnew', htasks⟩, hleft, hright⟩ := hlike.forked
  dsimp only at hfollow hstate hnew hnew' hleft hright
  have hv : RunEvent.Valid setup ⟨none, r, w, r', w'⟩ := hact
  have hv' : RunEvent.Valid setup ⟨none, x.awake, x.dawn setup, q, v⟩ := hfollow
  have ht := Run.transition_of_act hact
  have ht' := Run.transition_of_act hfollow
  have hnow : w.now = (x.dawn setup).now := h.now_eq hdue
  -- the log tasks that are started have begun at the same time
  obtain ⟨hbegun, -⟩ := Run.new_of_act (e := ⟨none, r, w, r', w'⟩) hact hnew
  obtain ⟨hbegun', -⟩ :=
    Run.new_of_act (e := ⟨none, x.awake, x.dawn setup, q, v⟩) hfollow hnew'
  dsimp only at hbegun hbegun'
  rw [← hnow] at hbegun'
  obtain rfl : new = new' := LogTask.eq_of_begun htasks hbegun hbegun'
  obtain rfl : q.tasks = new := by
    rw [hnew']
    exact congrArg (· ++ new) hx.tasks
  have hrestart : q.timer = Run.restart setup.config q.phase w.now := by
    have hdue' : x.awake.Due (x.dawn setup) := ⟨hx.ready.due, fun _ _ _ => hx.tasks⟩
    rw [hnow]
    exact ht'.timer_of_due hdue'
  have htimer : r'.timer = q.timer := by
    rw [hrestart, ht.timer_of_due hdue]
    exact Run.restart_like hlike.after.phase
  have hlater : w.now ≤ q.timer.wake := by
    rw [hrestart]
    exact Run.le_restart ..
  -- those that were there before see no difference
  have hkeep (t : LogTask) (hmem : t ∈ r.tasks) :
      t.outlook setup a v.state = t.outlook setup a w.state := by
    obtain ⟨hanswer, hdelay⟩ := ht.openLogs_eq hsteady (hgrown.streamed hmem) t.pod t.container
    rw [hstate] at hanswer hdelay
    exact LogTask.outlook_congr hanswer hdelay
  have hcalls := World.record_of_append (RunEvent.calls_left hv)
  rw [hlike.calls_eq hv hv' hnow] at hcalls
  exact h.fork hlike.after hstate ht.agrees.now (ht'.agrees.now.trans hnow.symm) htimer hlater hnew
    hbegun hkeep hleft hright hcalls (World.record_of_append (RunEvent.calls_left hv'))

/-- a call that is made leaves a run where it is -/
theorem Met.ask (h : Met setup a r w x) {call : Call} {spec : PodSpec} {timer : Timer}
    (hcall : r.call? = some (call, spec)) (ht : r.turn setup w call spec.ref = .ask timer) :
    Met setup a { r with timer } w x := by
  obtain ⟨hnow, heffect⟩ := h.call call spec hcall
  refine { h with like := { h.like with }, call := fun call' spec' hcall' => ?_ }
  obtain ⟨rfl, rfl⟩ := Prod.mk.inj (Option.some.inj (hcall.symm.trans hcall'))
  obtain ⟨hlater, hsame⟩ := Timer.effect_of_ask ht hnow
    (setup.platform.delay call spec.ref w.state)
  exact ⟨hlater, hsame.trans heffect⟩

/-- **A step that a run makes when there is nothing to wait for takes it to the next milestone.**
Any other leaves it where it is. -/
theorem Met.run (h : Met setup a r w x) (hx : x.Clear) (hsteady : setup.platform.Steady)
    (hgrown : r.Grown setup step) (hact : r.act setup w = some (r', w'))
    (hunfired : w.cancelled = false) :
    (r.Due w → Met setup a r' w' (x.next setup a)) ∧ (¬ r.Due w → Met setup a r' w' x) := by
  cases Run.leads_of_act_self List.Perm hact hunfired with
  | asked hcall ht ha hl =>
    have hdue := Run.not_due_of_ask hcall ht
    dsimp only at ha hl
    subst ha hl
    exact ⟨fun h => absurd h hdue, fun _ => h.ask hcall ht⟩
  | joined hp hj ha hl =>
    have hdue := Run.not_due_of_joinable (w := w) hp hj
    obtain ⟨warnings, hl⟩ := hl
    dsimp only at ha hl
    subst ha hl
    exact ⟨fun h => absurd h hdue, fun _ => h.join hj warnings⟩
  | step hdue hfollow =>
    refine ⟨fun _ => ?_, fun hnot => absurd hdue hnot⟩
    have hjoined (hnil : r.tasks = []) : x.awake.tasks = [] ∧ r.failures.Perm x.awake.failures ∧
        (r.failures = [] ↔ x.awake.failures = []) := by
      have hfailures := h.failures
      rw [hnil, List.flatMap_nil, List.append_nil] at hfailures
      refine ⟨hx.tasks, hfailures, ?_⟩
      rw [← List.length_eq_zero_iff, ← List.length_eq_zero_iff]
      exact iff_of_eq (congrArg (· = 0) hfailures.length_eq)
    obtain ⟨q, v, hf⟩ := hfollow x.awake (x.dawn setup) { h.like with } hx.ready h.state hjoined
    have hact' : x.awake.act setup (x.dawn setup) = some (q, v) := hf.act
    have hnext : x.next setup a = absorb setup a x q v := by rw [next, hact']
    rw [hnext]
    exact h.follow hx hsteady hgrown hact hdue hf

/-- Time that passes while no one can make a step, and the next line could be sent, leaves a run
where it is: it comes to the next time that someone waits for. -/
theorem Met.tick (h : Met setup a r w x) (hgrown : r.Grown setup step)
    (hunfired : w.cancelled = false) (hsend : w.channel.canSend = true) (hrests : r.Rests w)
    (htasks : ∀ t ∈ r.tasks, t.Rests w) {now : Nat}
    (hmem : now ∈ r.wake?.toList ++ r.tasks.filterMap (·.wake?)) (hlater : w.now < now)
    (hnext : ∀ time ∈ r.wake?.toList ++ r.tasks.filterMap (·.wake?), w.now < time → now ≤ time) :
    Met setup a r { w with now } x := by
  have htimers (t : LogTask) (ht : t ∈ r.tasks) (timer : Timer) (hp : t.phase = .opening timer) :
      now ≤ timer.wake := by
    have hwait := htasks t ht
    rw [LogTask.Rests, hp] at hwait
    refine hnext _ (List.mem_append_right _ (List.mem_filterMap.2 ⟨t, ht, ?_⟩)) hwait
    rw [LogTask.wake?, hp]
  refine h.later rfl rfl (Nat.le_of_lt hlater) (fun hcall => ?_) (fun hcall => ?_) htimers
  · have hwait : r.wake? = some r.timer.wake ∧ w.now < r.timer.wake := by
      unfold Run.call? at hcall
      unfold Run.Rests at hrests
      unfold Run.wake?
      split at hcall <;> simp_all
    refine hnext _ (List.mem_append_left _ ?_) hwait.2
    rw [hwait.1]
    exact List.mem_cons_self
  · unfold Run.Rests at hrests
    cases hp : r.phase with
    | start => simp [hp] at hrests
    | creating | streaming | finishing | deleting => simp [Run.call?, hp] at hcall
    | announcing => simp [hp, hsend] at hrests
    | ended | panicked =>
      -- no one waits for anything then
      rw [hgrown.tasks_of_isOver (by rw [Run.isOver, hp]), Run.wake?, hp] at hmem
      cases hmem
    | joining spec fatal =>
      rw [hp] at hrests
      obtain ⟨t, ht, time, hwake, hwait⟩ :=
        Run.exists_waiting hrests.2.1 hrests.2.2 hsend htasks
      calc now ≤ time := hnext time (List.mem_append_right _ (List.mem_filterMap.2 ⟨t, ht, hwake⟩))
            hwait
        _ ≤ t.leaves setup a.heard w.state := LogTask.le_leaves_of_wake hwake _ _
        _ ≤ x.horizon := (h.tasks t ht).bounded
        _ ≤ x.due setup := horizon_le_due (Run.like_phase_of h.like hp).of_joining

theorem met_begin (setup : Setup σ) (a : Audience setup.config.sanitize) (step : StepDefinition)
    (world : World σ) (channel : Channel) :
    Met setup a { step } { world with channel } (milestones setup a step world 0) := by
  refine ⟨⟨rfl, rfl, rfl, .start⟩, rfl, Nat.le_refl _, by simp [Run.call?], fun _ => Nat.le_refl _,
    by simp, .inl (Nat.le_refl _), rfl, ?_, .nil, rfl⟩
  simp [World.record, milestones]

end Milestone

end StepRunner
