import StepRunner.Run.Step

/-!
# What one step of a run can be

The state machine of a run, read backwards: each way in which it can make a step, with what lets it
make this one.  What holds of all steps is proved from these, one case for each.

* `Run.call?`               the call that a phase waits for
* `Run.inHand?`             the pod between its creation and its deletion
* `Run.Transition`          the steps of a run
* `transition_of_act`       there are no others
* `LogTask.Transition`      the steps of a log task
* `transition_of_actTask`   there are no others
* `Run.Rests`               a run that can make no step
-/

namespace StepRunner

variable {σ : Type}

theorem Timer.asked_of_turn {t t' : Timer} {now delay : Nat} (h : t.turn now delay = .ask t') :
    t.asked = false ∧ t'.asked = true := by
  unfold turn at h
  split at h
  · cases h
  · split at h
    next => cases h
    next hasked =>
      cases h
      exact ⟨by simpa using hasked, rfl⟩

theorem Timer.go_of_turn {t : Timer} {now delay : Nat} (h : t.turn now delay = .go) :
    t.asked = true := by
  unfold turn at h
  split at h
  · cases h
  · split at h
    next hasked => exact hasked
    next => cases h

namespace Run

/-- the call that a phase waits for, and the pod it is on -/
def call? (r : Run) : Option (Call × PodSpec) :=
  match r.phase with
  | .creating spec => some (.create, spec)
  | .streaming spec _ | .finishing spec _ => some (.fetch, spec)
  | .deleting spec _ => some (.delete, spec)
  | _ => none

def inHand? (r : Run) : Option PodSpec :=
  match r.phase with
  | .streaming spec _ | .announcing spec .. | .joining spec _ | .finishing spec _ => some spec
  | _ => none

/-- what the clock makes of a call on a pod -/
def turn (setup : Setup σ) (r : Run) (w : World σ) (call : Call) (pod : PodRef) : Timer.Turn :=
  r.timer.turn w.now (setup.platform.delay call pod w.state)

/-- The steps of a run: from `r` in the world `w` to another run and another world. -/
inductive Transition (setup : Setup σ) (r : Run) (w : World σ) : Run → World σ → Prop where
  /-- the token has fired before the start -/
  | cancelledEarly (hp : r.phase = .start) (hc : w.cancelled = true) :
      Transition setup r w (r.goTo (.ended (some (.cancelled r.step.name))) w.now) w
  | buildPanicked (hp : r.phase = .start) (hc : w.cancelled = false)
      (hb : setup.build r.step = .panicked) : Transition setup r w (r.goTo .panicked w.now) w
  | buildRefused {reason : String} (hp : r.phase = .start) (hc : w.cancelled = false)
      (hb : setup.build r.step = .refused reason) :
      Transition setup r w (r.goTo (.ended (some (.buildPodSpec r.step.name reason))) w.now) w
  | built {spec : PodSpec} (hp : r.phase = .start) (hc : w.cancelled = false)
      (hb : setup.build r.step = .spec spec) :
      Transition setup r w (r.goTo (.creating spec) w.now) w
  /-- a call is made and will have its effect later -/
  | asked {call : Call} {spec : PodSpec} {timer : Timer} (hp : r.call? = some (call, spec))
      (hc : r.inHand?.isSome → w.cancelled = false)
      (ht : r.turn setup w call spec.ref = .ask timer) : Transition setup r w { r with timer } w
  | createRefused {spec : PodSpec} {e : ClusterError} {state : σ} (hp : r.phase = .creating spec)
      (ht : r.turn setup w .create spec.ref = .go)
      (ha : setup.platform.create spec w.state = (.error e, state)) :
      Transition setup r w (r.goTo (.ended (some (.createPod spec.ref.text e))) w.now)
        (w.after state spec.ref (.created false))
  | created {spec : PodSpec} {identity : Option PodIdentity} {state : σ}
      (hp : r.phase = .creating spec) (ht : r.turn setup w .create spec.ref = .go)
      (ha : setup.platform.create spec w.state = (.ok identity, state)) :
      Transition setup r w (r.goTo (beginStreaming setup spec) w.now)
        (if identity.isNone then (w.after state spec.ref (.created true)).warn [.noPodReturned]
          else w.after state spec.ref (.created true))
  /-- the token has fired while the pod is in hand -/
  | cancelled {spec : PodSpec} (hp : r.inHand? = some spec) (hc : w.cancelled = true) :
      Transition setup r w (r.cancel spec w.now) w
  /-- a look that ends a wait for a container to be ready -/
  | streamingLook {spec : PodSpec} {s : Streaming} {watch : Watch} {outcome : Watch.Outcome}
      {warnings : List Warning} (hp : r.phase = .streaming spec s) (hc : w.cancelled = false)
      (ht : r.turn setup w .fetch spec.ref = .go)
      (ha : s.watch.answer s.polls (w.fetch setup.platform spec.ref).1 =
        (watch, some outcome, warnings)) :
      Transition setup r w (r.afterStreaming spec { s with watch } w.now outcome)
        ((w.fetch setup.platform spec.ref).2.warn warnings)
  /-- a look that comes to nothing -/
  | streamingAgain {spec : PodSpec} {s : Streaming} {watch : Watch} {warnings : List Warning}
      (hp : r.phase = .streaming spec s) (hc : w.cancelled = false)
      (ht : r.turn setup w .fetch spec.ref = .go)
      (ha : s.watch.answer s.polls (w.fetch setup.platform spec.ref).1 = (watch, none, warnings)) :
      Transition setup r w
        (r.goToAfter (.streaming spec { s with watch, polls := s.polls + 1 }) w.now
          setup.config.pollInterval.toNat)
        ((w.fetch setup.platform spec.ref).2.warn warnings)
  | announced {spec : PodSpec} {s : Streaming} {container : String}
      (hp : r.phase = .announcing spec s container) (hc : w.cancelled = false)
      (hs : w.channel.canSend = true) :
      Transition setup r w (r.afterNotice spec s container w.now)
        (w.send (.containerReady r.step.name container))
  | joinedPanicked {spec : PodSpec} {fatal : Option RunError} {task : LogTask}
      {tasks : List LogTask} (hp : r.phase = .joining spec fatal) (hc : w.cancelled = false)
      (hj : joinable? r.tasks = some (task, tasks)) (ht : task.isPanicked = true) :
      Transition setup r w { r with tasks, failures := r.failures ++ [panicError task] }
        (w.warn [.logTaskPanicked])
  | joined {spec : PodSpec} {fatal : Option RunError} {task : LogTask} {tasks : List LogTask}
      (hp : r.phase = .joining spec fatal) (hc : w.cancelled = false)
      (hj : joinable? r.tasks = some (task, tasks)) (ht : task.isPanicked = false) :
      Transition setup r w { r with tasks } w
  | joinedAll {spec : PodSpec} {fatal : Option RunError} (hp : r.phase = .joining spec fatal)
      (hc : w.cancelled = false) (ht : r.tasks = []) :
      Transition setup r w (r.afterJoining setup spec fatal w.now)
        (if fatal.isSome && !r.failures.isEmpty then w.warn [.logTasksAlsoFailed] else w)
  /-- a look that ends a wait for a container to be done -/
  | finishingLook {spec : PodSpec} {f : Finishing} {watch : Watch} {outcome : Watch.Outcome}
      {warnings : List Warning} (hp : r.phase = .finishing spec f) (hc : w.cancelled = false)
      (ht : r.turn setup w .fetch spec.ref = .go)
      (ha : f.watch.answer f.polls (w.fetch setup.platform spec.ref).1 =
        (watch, some outcome, warnings)) :
      Transition setup r w (r.afterFinishing setup spec { f with watch } w.now outcome)
        ((w.fetch setup.platform spec.ref).2.warn warnings)
  /-- a look that comes to nothing -/
  | finishingAgain {spec : PodSpec} {f : Finishing} {watch : Watch} {warnings : List Warning}
      (hp : r.phase = .finishing spec f) (hc : w.cancelled = false)
      (ht : r.turn setup w .fetch spec.ref = .go)
      (ha : f.watch.answer f.polls (w.fetch setup.platform spec.ref).1 = (watch, none, warnings)) :
      Transition setup r w
        (r.goToAfter (.finishing spec { f with watch, polls := f.polls + 1 }) w.now
          setup.config.pollInterval.toNat)
        ((w.fetch setup.platform spec.ref).2.warn warnings)
  | deleteRefused {spec : PodSpec} {outcome : Option RunError} {e : ClusterError} {state : σ}
      (hp : r.phase = .deleting spec outcome) (ht : r.turn setup w .delete spec.ref = .go)
      (ha : setup.platform.delete spec.ref w.state = (.error e, state)) :
      Transition setup r w (r.goTo (.ended outcome) w.now)
        ((w.after state spec.ref (.deleted false)).warn [.deleteFailed])
  | deleted {spec : PodSpec} {outcome : Option RunError} {state : σ}
      (hp : r.phase = .deleting spec outcome) (ht : r.turn setup w .delete spec.ref = .go)
      (ha : setup.platform.delete spec.ref w.state = (.ok (), state)) :
      Transition setup r w (r.goTo (.ended outcome) w.now)
        (w.after state spec.ref (.deleted true))

variable {setup : Setup σ} {r r' : Run} {w w' : World σ}

/-- a run makes no other steps -/
theorem transition_of_act (h : r.act setup w = some (r', w')) : Transition setup r w r' w' := by
  unfold act at h
  dsimp only at h
  split at h
  next hp =>
    split at h
    next hc =>
      cases h
      exact .cancelledEarly hp hc
    next hc =>
      rw [Bool.not_eq_true] at hc
      split at h
      next hb =>
        cases h
        exact .buildPanicked hp hc hb
      next reason hb =>
        cases h
        exact .buildRefused hp hc hb
      next spec hb =>
        cases h
        exact .built hp hc hb
  next spec hp =>
    split at h
    next => cases h
    next timer ht =>
      cases h
      exact .asked (by simp [call?, hp]) (by simp [inHand?, hp]) ht
    next ht =>
      split at h
      next e state ha =>
        cases h
        exact .createRefused hp ht ha
      next identity state ha =>
        cases h
        exact .created hp ht ha
  next spec s hp =>
    split at h
    next hc =>
      cases h
      exact .cancelled (by simp [inHand?, hp]) hc
    next hc =>
      rw [Bool.not_eq_true] at hc
      split at h
      next => cases h
      next timer ht =>
        cases h
        exact .asked (by simp [call?, hp]) (fun _ => hc) ht
      next ht =>
        split at h
        next watch outcome warnings ha =>
          cases h
          exact .streamingLook hp hc ht ha
        next watch warnings ha =>
          cases h
          exact .streamingAgain hp hc ht ha
  next spec s container hp =>
    split at h
    next hc =>
      cases h
      exact .cancelled (by simp [inHand?, hp]) hc
    next hc =>
      split at h
      next hs =>
        cases h
        exact .announced hp (by simpa using hc) hs
      next => cases h
  next spec fatal hp =>
    split at h
    next hc =>
      cases h
      exact .cancelled (by simp [inHand?, hp]) hc
    next hc =>
      rw [Bool.not_eq_true] at hc
      split at h
      next task tasks hj =>
        split at h
        next ht =>
          cases h
          exact .joinedPanicked hp hc hj ht
        next ht =>
          cases h
          exact .joined hp hc hj (by simpa using ht)
      next =>
        split at h
        next ht =>
          cases h
          exact .joinedAll hp hc (by simpa using ht)
        next => cases h
  next spec f hp =>
    split at h
    next hc =>
      cases h
      exact .cancelled (by simp [inHand?, hp]) hc
    next hc =>
      rw [Bool.not_eq_true] at hc
      split at h
      next => cases h
      next timer ht =>
        cases h
        exact .asked (by simp [call?, hp]) (fun _ => hc) ht
      next ht =>
        split at h
        next watch outcome warnings ha =>
          cases h
          exact .finishingLook hp hc ht ha
        next watch warnings ha =>
          cases h
          exact .finishingAgain hp hc ht ha
  next spec outcome hp =>
    split at h
    next => cases h
    next timer ht =>
      cases h
      exact .asked (by simp [call?, hp]) (by simp [inHand?, hp]) ht
    next ht =>
      split at h
      next e state ha =>
        cases h
        exact .deleteRefused hp ht ha
      next state ha =>
        cases h
        exact .deleted hp ht ha
  next => cases h
  next => cases h

end Run

/-! ## log tasks -/

namespace LogTask

variable {platform : Platform σ} {options : Text.SanitizeOptions}

/-- The steps of a log task: from `t` in the world `w` to another task and another world, and the
failure that it ends with, if it does. -/
inductive Transition (platform : Platform σ) (options : Text.SanitizeOptions) (t : LogTask)
    (w : World σ) : Result σ → Prop where
  | asked {timer timer' : Timer} (hp : t.phase = .opening timer)
      (ht : timer.turn w.now (platform.delay .openLogs t.pod w.state) = .ask timer') :
      Transition platform options t w (t.goTo (.opening timer') w)
  | openPanicked {timer : Timer} {state : σ} (hp : t.phase = .opening timer)
      (ht : timer.turn w.now (platform.delay .openLogs t.pod w.state) = .go)
      (ha : platform.openLogs t.pod t.container w.state = (.panicked, state)) :
      Transition platform options t w
        (t.goTo .panicked (w.after state t.pod (.opened t.container)))
  | openRefused {timer : Timer} {e : ClusterError} {state : σ} (hp : t.phase = .opening timer)
      (ht : timer.turn w.now (platform.delay .openLogs t.pod w.state) = .go)
      (ha : platform.openLogs t.pod t.container w.state = (.failed e, state)) :
      Transition platform options t w
        (t.fail (.openLogStream t.pod.text t.container e)
          (w.after state t.pod (.opened t.container)))
  | opened {timer : Timer} {s : Log.Stream} {state : σ} (hp : t.phase = .opening timer)
      (ht : timer.turn w.now (platform.delay .openLogs t.pod w.state) = .go)
      (ha : platform.openLogs t.pod t.container w.state = (.stream s, state)) :
      Transition platform options t w
        (t.goTo (.forwarding (.ofReads options s.reads) s.times none)
          (w.after state t.pod (.opened t.container)))
  | read {scanner scanner' : Log.Scanner} {times : List Nat} {warnings : List Warning}
      (hp : t.phase = .forwarding scanner times none)
      (hn : Log.lineTime scanner.reads times ≤ w.now)
      (ha : scanner.advance = (true, scanner', warnings)) :
      Transition platform options t w
        (t.goTo (.forwarding scanner' (times.drop (scanner.reads.length - scanner'.reads.length))
          (some scanner'.line)) (w.warn warnings))
  | closed {scanner scanner' : Log.Scanner} {times : List Nat} {warnings : List Warning}
      (hp : t.phase = .forwarding scanner times none)
      (hn : Log.lineTime scanner.reads times ≤ w.now)
      (ha : scanner.advance = (false, scanner', warnings)) :
      Transition platform options t w (t.close scanner' (w.warn warnings))
  /-- the reader is gone -/
  | stopped {scanner : Log.Scanner} {times : List Nat} {line : String}
      (hp : t.phase = .forwarding scanner times (some line))
      (ho : w.channel.isOpen = false) : Transition platform options t w (t.goTo .ended w)
  | sent {scanner : Log.Scanner} {times : List Nat} {line : String}
      (hp : t.phase = .forwarding scanner times (some line))
      (ho : w.channel.isOpen = true) (hs : w.channel.canSend = true) :
      Transition platform options t w
        (t.goTo (.forwarding scanner times none) (w.send (.output t.step t.container line)))

theorem transition_of_act {t : LogTask} {w : World σ} {result : Result σ}
    (h : t.act platform options w = some result) : Transition platform options t w result := by
  unfold act at h
  split at h
  next timer hp =>
    split at h
    next => cases h
    next timer' ht =>
      cases h
      exact .asked hp ht
    next ht =>
      cases ha : platform.openLogs t.pod t.container w.state with
      | mk opening state =>
        rw [ha] at h
        cases opening <;> cases h
        · exact .opened hp ht ha
        · exact .openRefused hp ht ha
        · exact .openPanicked hp ht ha
  next scanner times hp =>
    split at h
    next => cases h
    next hn =>
      have hn := Nat.le_of_not_lt hn
      split at h
      next scanner' warnings ha =>
        cases h
        exact .read hp hn ha
      next scanner' warnings ha =>
        cases h
        exact .closed hp hn ha
  next scanner times line hp =>
    split at h
    next ho =>
      cases h
      exact .stopped hp (by simpa using ho)
    next ho =>
      split at h
      next hs =>
        cases h
        exact .sent hp (by simpa using ho) hs
      next => cases h
  next => cases h
  next => cases h

end LogTask

namespace Run

variable {setup : Setup σ} {r r' : Run} {w w' : World σ}

theorem transition_of_actTask {id : Nat} (h : r.actTask setup id w = some (r', w')) :
    ∃ t result, r.tasks.find? (·.id = id) = some t ∧
      LogTask.Transition setup.platform setup.config.sanitize t w result ∧ w' = result.world ∧
      r' = { r with
        tasks := putTask result.task r.tasks
        failures := r.failures ++ result.failure.toList } := by
  unfold actTask at h
  split at h
  next => cases h
  next t hfind =>
    split at h
    next => cases h
    next result hact =>
      cases h
      exact ⟨t, result, hfind, LogTask.transition_of_act hact, rfl, rfl⟩

end Run

/-! ## when there is no step -/

theorem Timer.turn_eq_wait_iff {t : Timer} {now delay : Nat} :
    t.turn now delay = .wait ↔ now < t.wake := by
  unfold turn
  split
  next h => simp [h]
  next h => split <;> simp [h]

/-- whether a log task can make no step -/
def LogTask.Rests (t : LogTask) (w : World σ) : Prop :=
  match t.phase with
  | .opening timer => w.now < timer.wake
  | .forwarding scanner times none => w.now < Log.lineTime scanner.reads times
  | .forwarding _ _ (some _) => w.channel.canSend = false
  | .ended | .panicked => True

theorem LogTask.act_eq_none_iff {platform : Platform σ} {options : Text.SanitizeOptions}
    {t : LogTask} {w : World σ} : t.act platform options w = none ↔ t.Rests w := by
  unfold act Rests
  cases t.phase with
  | opening timer =>
    have hwait : timer.turn w.now (platform.delay .openLogs t.pod w.state) = .wait ↔
        w.now < timer.wake := Timer.turn_eq_wait_iff
    dsimp only
    rw [← hwait]
    split
    next h => simp [h]
    next h => simp [h]
    next h => split <;> simp [h]
  | forwarding scanner times line =>
    cases line with
    | none =>
      dsimp only
      split
      next hn => simp [hn]
      next hn => split <;> simp [hn]
    | some line =>
      dsimp only
      split
      next h => simp_all [Channel.canSend]
      next => split <;> simp_all
  | ended => simp
  | panicked => simp

namespace Run

variable {setup : Setup σ} {r : Run} {w : World σ}

/-- whether a run can make no step -/
def Rests (r : Run) (w : World σ) : Prop :=
  match r.phase with
  | .start => False
  | .creating _ | .deleting .. => w.now < r.timer.wake
  | .streaming .. | .finishing .. => w.cancelled = false ∧ w.now < r.timer.wake
  | .announcing .. => w.cancelled = false ∧ w.channel.canSend = false
  | .joining .. => w.cancelled = false ∧ joinable? r.tasks = none ∧ r.tasks ≠ []
  | .ended _ | .panicked => True

theorem act_eq_none_iff : r.act setup w = none ↔ r.Rests w := by
  have hwait (call : Call) (pod : PodRef) :
      r.timer.turn w.now (setup.platform.delay call pod w.state) = .wait ↔ w.now < r.timer.wake :=
    Timer.turn_eq_wait_iff
  unfold act Rests
  dsimp only
  cases r.phase with
  | start =>
    dsimp only
    split
    · simp
    · split <;> simp
  | creating spec =>
    dsimp only
    rw [← hwait .create spec.ref]
    split
    next h => simp [h]
    next h => simp [h]
    next h => split <;> simp [h]
  | streaming spec =>
    dsimp only
    rw [← hwait .fetch spec.ref]
    split
    next h => simp [h]
    next hc =>
      split
      next h => simpa [h] using hc
      next h => simp [h]
      next h => split <;> simp [h]
  | finishing spec =>
    dsimp only
    rw [← hwait .fetch spec.ref]
    split
    next h => simp [h]
    next hc =>
      split
      next h => simpa [h] using hc
      next h => simp [h]
      next h => split <;> simp [h]
  | announcing =>
    dsimp only
    split
    next h => simp [h]
    next hc => split <;> simp_all
  | joining =>
    dsimp only
    split
    next h => simp [h]
    next hc =>
      split
      next h => split <;> simp [h]
      next h => split <;> simp_all
  | deleting spec =>
    dsimp only
    rw [← hwait .delete spec.ref]
    split
    next h => simp [h]
    next h => simp [h]
    next h => split <;> simp [h]
  | ended => simp
  | panicked => simp

end Run

end StepRunner
