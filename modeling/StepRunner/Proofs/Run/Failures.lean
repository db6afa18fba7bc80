import StepRunner.Proofs.Run.Output
import StepRunner.Proofs.Run.Prospect

/-!
# The failures of log tasks

A log task that fails leaves its error behind, in the list that all of them share or, where its
opening breaks off, when it is joined.  As long as the reader is there none is lost and none is told
twice: what was told and what the tasks have still to tell is what the opened streams come to.  So
the run ends with one error for each task that has failed, unless the wait for containers to be
ready has broken off; then it ends with the error of this wait, and all log tasks are over by then.

* `LogOpening.failure?`      the error that comes of an opened stream, if any
* `RunError.isFatal`, `RunEvent.fatal`   the errors that break the wait off
* `LogTask.due`              what a log task has still to tell of a stream that it has opened
* `Transition.due`           a step of a log task: what it tells is not due any more
* `Run.Tallied`              a run that streams logs, with all that was told
* `Tallied.event`            every step leaves it so
* `stepsOf_partition`        the steps of a run are its own and those of its log tasks
* `joined_of_play`           how a run that streams logs ends
-/

namespace StepRunner

variable {σ : Type}

/-! ## errors -/

/-- the error that comes of a log stream that was opened, if any -/
def LogOpening.failure? (options : Text.SanitizeOptions) (pod : PodRef) (container : String) :
    LogOpening → Option RunError
  | .stream s =>
    let last := (Log.Scanner.ofReads options s.reads).ending
    last.failure.map (.readLogStream pod.text container last.linesRead)
  | .failed e => some (.openLogStream pod.text container e)
  | .panicked => some (.logTaskPanicked pod.text "the task panicked")

/-- whether an error breaks the wait for containers to be ready off: the pod could not be looked at,
or the wait has come to its limit -/
def RunError.isFatal : RunError → Bool
  | .fetchPod .. | .pollLimitExceeded .. => true
  | _ => false

/-- the error that breaks a wait off with which it ends, if any -/
def Watch.fatal : Option Watch.Outcome → List RunError
  | some (.error error) => if error.isFatal then [error] else []
  | _ => []

/-- the error that has broken the wait for containers to be ready off at a look, if any -/
def RunEvent.fatal (setup : Setup σ) (e : RunEvent σ) : List RunError :=
  match e.before.phase with
  | .streaming _ s =>
    e.calls.flatMap fun c =>
      match c.event with
      | .fetched _ => Watch.fatal (s.watch.answer s.polls (e.seen.fetch setup.platform c.pod).1).2.1
      | _ => []
  | _ => []

namespace RunEvent

variable {setup : Setup σ} {e : RunEvent σ}

theorem fatal_of_no_call (h : e.left.calls = e.seen.calls) : e.fatal setup = [] := by
  unfold fatal
  rw [calls_of_append [] h]
  split <;> rfl

theorem fatal_of_opened {time : Nat} {pod : PodRef} {container : String}
    (h : e.left.calls = ⟨time, pod, .opened container⟩ :: e.seen.calls) : e.fatal setup = [] := by
  unfold fatal
  rw [calls_of_append [_] h]
  split <;> rfl

theorem fatal_of_phase (h : ∀ spec s, e.before.phase ≠ .streaming spec s) :
    e.fatal setup = [] := by
  unfold fatal
  split
  next spec s hp => exact absurd hp (h spec s)
  next => rfl

theorem fatal_of_look {spec : PodSpec} {s : Streaming} {watch : Watch}
    {outcome : Option Watch.Outcome} {warnings : List Warning}
    (hp : e.before.phase = .streaming spec s)
    (ha : s.watch.answer s.polls (e.seen.fetch setup.platform spec.ref).1 =
      (watch, outcome, warnings))
    (hl : e.left.calls = (e.seen.fetch setup.platform spec.ref).2.calls) :
    e.fatal setup = Watch.fatal outcome := by
  simp only [fatal, hp]
  rw [calls_of_append [_] hl, List.reverse_singleton, List.flatMap_singleton, ha]

end RunEvent

/-! ## lines -/

theorem LogOpening.lines_of_failure? {options : Text.SanitizeOptions} {pod : PodRef}
    {name container : String} {text : String} {opening : LogOpening} {lines : Nat}
    {source : Log.ReadFailure}
    (h : opening.failure? options pod name = some (.readLogStream text container lines source)) :
    lines = (opening.lines options).length := by
  cases opening with
  | failed => cases h
  | panicked => cases h
  | stream s =>
    obtain ⟨failure, -, heq⟩ := Option.map_eq_some_iff.1 h
    cases heq
    rw [Log.Scanner.linesRead_ending]
    exact Nat.zero_add _

/-! ## one log task -/

namespace LogTask

variable {setup : Setup σ} {t : LogTask} {e : RunEvent σ} {result : Result σ}

/-- what a log task has still to tell of the stream that it has opened -/
def due (t : LogTask) : List RunError :=
  match t.phase with
  | .forwarding scanner _ _ => t.scanFailures scanner
  | .panicked => [Run.panicError t]
  | .opening _ | .ended => []

theorem due_of_isOpening (h : t.isOpening = true) : t.due = [] := by
  unfold isOpening at h
  unfold due
  split at h <;> simp_all

theorem due_of_isOver (h : t.isOver = true) :
    t.due = if t.isPanicked then [Run.panicError t] else [] := by
  unfold isOver at h
  unfold due isPanicked
  split at h <;> simp_all

theorem due_of_forwarding {scanner : Log.Scanner} {times : List Nat} {line : Option String}
    (hp : t.phase = .forwarding scanner times line) : t.due = t.scanFailures scanner := by
  rw [due, hp]

/-- the errors that come of the streams that a step has opened -/
def told (setup : Setup σ) (pod : PodRef) (e : RunEvent σ) : List RunError :=
  (e.openings setup).flatMap fun o => (o.2.failure? setup.config.sanitize pod o.1).toList

/-- **A step of a log task**: with the error that it tells and what it has still to tell it answers
for what it had to tell before, and for the stream that it opens. -/
theorem Transition.due (ht : Transition setup.platform setup.config.sanitize t e.seen result)
    (hl : e.left = result.world) (hopen : e.seen.channel.isOpen = true) :
    result.failure.toList ++ result.task.due = t.due ++ told setup t.pod e := by
  have hquiet (hc : result.world.calls = e.seen.calls) : told setup t.pod e = [] := by
    rw [told, RunEvent.openings_of_no_call (by rw [hl]; exact hc)]
    rfl
  have hopened (hc : result.world.calls =
        ⟨e.seen.now, t.pod, .opened t.container⟩ :: e.seen.calls) :
      told setup t.pod e = ((setup.platform.openLogs t.pod t.container e.seen.state).1.failure?
        setup.config.sanitize t.pod t.container).toList := by
    rw [told, RunEvent.openings_of_opened (by rw [hl]; exact hc)]
    exact List.append_nil _
  have hopening {timer : Timer} (hp : t.phase = .opening timer) : t.due = [] :=
    due_of_isOpening (by simp only [isOpening, hp])
  cases ht with
  | asked hp =>
    rw [hquiet rfl, hopening hp]
    rfl
  | openPanicked hp _ ha | openRefused hp _ ha =>
    rw [hopened rfl, hopening hp, ha]
    rfl
  | opened hp _ ha =>
    rw [hopened rfl, hopening hp, ha]
    rfl
  | read hp _ ha =>
    rw [hquiet rfl, due_of_forwarding hp, scanFailures, Log.Scanner.ending_of_advance ha,
      List.append_nil]
    rfl
  | @closed scanner scanner' times warnings hp _ ha =>
    obtain ⟨htask, hcalls, -⟩ := close_task t scanner' (e.seen.warn warnings)
    rw [hquiet hcalls, due_of_forwarding hp, scanFailures, Log.Scanner.ending_of_no_advance ha,
      failure_close, htask]
    rfl
  | stopped _ hclosed =>
    rw [hopen] at hclosed
    cases hclosed
  | @sent scanner times line hp =>
    rw [hquiet rfl, due_of_forwarding hp, List.append_nil]
    rfl

end LogTask

/-! ## a run that streams logs -/

namespace Run

variable {setup : Setup σ} {spec : PodSpec} {past : List (RunEvent σ)} {r : Run} {e : RunEvent σ}

/-- How far such a run is, and what has broken its wait for containers to be ready off. -/
inductive Breaks (setup : Setup σ) (spec : PodSpec) (past : List (RunEvent σ)) (r : Run) :
    Prop where
  | waiting (hp : r.streamed? = some spec) (hj : ∀ pod fatal, r.phase ≠ .joining pod fatal)
      (hf : past.flatMap (·.fatal setup) = [])
  | joining {fatal : Option RunError} (hp : r.phase = .joining spec fatal)
      (hf : past.flatMap (·.fatal setup) = fatal.toList)
  | ended {fatal : Option RunError} (hp : r.phase = .ended (logError? fatal r.failures))
      (ht : r.tasks = []) (hf : past.flatMap (·.fatal setup) = fatal.toList)

/-- A run that streams the logs of a pod and no more, with all that its log tasks have told and have
still to tell. -/
structure Tallied (setup : Setup σ) (spec : PodSpec) (past : List (RunEvent σ)) (r : Run) :
    Prop where
  logs : r.extent = .logs
  pods : ∀ t ∈ r.tasks, t.pod = spec.ref
  account : (r.failures ++ r.tasks.flatMap LogTask.due).Perm
    (past.flatMap (LogTask.told setup spec.ref))
  breaks : Breaks setup spec past r

theorem tallied_begin (hp : r.phase = beginStreaming setup spec) (hext : r.extent = .logs)
    (ht : r.tasks = []) (hf : r.failures = []) : Tallied setup spec [] r where
  logs := hext
  pods := by simp [ht]
  account := by simp [ht, hf]
  breaks := .waiting (by rw [streamed?, hp]; rfl) (by simp [hp, beginStreaming]) rfl

theorem mem_beginAll {pod : PodRef} {step : String} {now first : Nat} {names : List String}
    {t : LogTask} (h : t ∈ LogTask.beginAll pod step now first names) :
    t.pod = pod ∧ t.isOpening = true := by
  induction names generalizing first with
  | nil => cases h
  | cons name names ih =>
    obtain rfl | h := List.mem_cons.1 h
    · exact ⟨rfl, rfl⟩
    · exact ih h

/-- a run that has gone on with the failures that it had, its new log tasks being about to open
their streams -/
structure Begins (spec : PodSpec) (r r' : Run) : Prop where
  extent : r'.extent = r.extent
  failures : r'.failures = r.failures
  tasks : ∃ new, r'.tasks = r.tasks ++ new ∧ ∀ t ∈ new, t.pod = spec.ref ∧ t.isOpening = true

theorem begins_of_tasks {r' : Run} (hext : r'.extent = r.extent) (hf : r'.failures = r.failures)
    (ht : r'.tasks = r.tasks) : Begins spec r r' :=
  ⟨hext, hf, [], by rw [ht, List.append_nil], by simp⟩

theorem begins_afterStreaming (r : Run) (spec : PodSpec) (s : Streaming) (now : Nat)
    (outcome : Watch.Outcome) : Begins spec r (r.afterStreaming spec s now outcome) := by
  unfold afterStreaming
  split
  next => exact begins_of_tasks rfl rfl rfl
  next =>
    rw [spawnLate_eq_beginAll]
    exact ⟨rfl, rfl, _, rfl, fun t ht => mem_beginAll ht⟩
  next => exact begins_of_tasks rfl rfl rfl
  next => exact begins_of_tasks rfl rfl rfl

theorem begins_afterNotice (r : Run) (spec : PodSpec) (s : Streaming) (container : String)
    (now : Nat) : Begins spec r (r.afterNotice spec s container now) := by
  obtain ⟨-, -, hext, -, htasks⟩ := afterNotice_spec r spec s container now
  refine ⟨hext, rfl, _, htasks, fun t ht => ?_⟩
  rw [List.mem_singleton.1 ht]
  exact ⟨rfl, rfl⟩

theorem Tallied.begins (h : Tallied setup spec past e.before) (hb : Begins spec e.before e.after)
    (ho : e.openings setup = []) (hs : Breaks setup spec (past ++ [e]) e.after) :
    Tallied setup spec (past ++ [e]) e.after := by
  obtain ⟨hext, hfailures, new, htasks, hnew⟩ := hb
  refine ⟨hext.trans h.logs, fun t ht => ?_, ?_, hs⟩
  · rw [htasks] at ht
    obtain ht | ht := List.mem_append.1 ht
    · exact h.pods t ht
    · exact (hnew t ht).1
  · have hnone : new.flatMap LogTask.due = [] :=
      List.flatMap_eq_nil_iff.2 fun t ht => LogTask.due_of_isOpening (hnew t ht).2
    have htold : LogTask.told setup spec.ref e = [] := by
      rw [LogTask.told, ho]
      rfl
    rw [RunEvent.flatMap_concat_of_nil htold, hfailures, htasks, List.flatMap_append, hnone,
      List.append_nil]
    exact h.account

/-- a step that joins a log task that is over, with what this has still to tell -/
theorem Tallied.join (h : Tallied setup spec past e.before) {t : LogTask}
    (hj : joinable? e.before.tasks = some (t, e.after.tasks))
    (hfailures : e.after.failures = e.before.failures ++ t.due)
    (hext : e.after.extent = e.before.extent) (ho : e.openings setup = [])
    (hs : Breaks setup spec (past ++ [e]) e.after) :
    Tallied setup spec (past ++ [e]) e.after := by
  obtain ⟨front, back, hsplit, hrest⟩ := exists_split_of_joinable? hj
  refine ⟨hext.trans h.logs, fun u hu => h.pods u (mem_of_joinable? hj u hu), ?_, hs⟩
  have htold : LogTask.told setup spec.ref e = [] := by
    rw [LogTask.told, ho]
    rfl
  have haccount := h.account
  rw [hsplit] at haccount
  rw [RunEvent.flatMap_concat_of_nil htold, hfailures, hrest]
  exact perm_of_join haccount

theorem breaks_afterStreaming {r : Run} {s : Streaming} {polls : Nat}
    {answer : Except ClusterError PodSnapshot} {watch : Watch} {outcome : Watch.Outcome}
    (hlook : s.watch.Look polls answer watch (some outcome))
    (hbefore : past.flatMap (·.fatal setup) = [])
    (hfatal : e.fatal setup = Watch.fatal (some outcome)) (now : Nat) :
    Breaks setup spec (past ++ [e]) (r.afterStreaming spec { s with watch } now outcome) := by
  have hall : (past ++ [e]).flatMap (·.fatal setup) = e.fatal setup := by
    rw [RunEvent.flatMap_concat, hbefore]
    rfl
  rw [← hall] at hfatal
  cases hlook with
  | refused => exact .joining rfl hfatal
  | handed => exact .waiting rfl (by simp [afterStreaming, goTo]) hfatal
  | nothingLeft => exact .joining rfl hfatal
  | podFinished => exact .joining rfl hfatal
  | limitReached => exact .joining rfl hfatal

theorem Breaks.of_waiting (h : Breaks setup spec past r) {pod : PodSpec}
    (hp : r.streamed? = some pod) (hj : ∀ pod fatal, r.phase ≠ .joining pod fatal) :
    pod = spec ∧ past.flatMap (·.fatal setup) = [] := by
  cases h with
  | waiting hp' _ hf => exact ⟨Option.some.inj (hp.symm.trans hp'), hf⟩
  | joining hp' => exact absurd hp' (hj _ _)
  | ended hp' => simp [streamed?, hp'] at hp

theorem Breaks.of_joining (h : Breaks setup spec past r) {pod : PodSpec}
    {fatal : Option RunError} (hp : r.phase = .joining pod fatal) :
    pod = spec ∧ past.flatMap (·.fatal setup) = fatal.toList := by
  cases h with
  | waiting _ hj => exact absurd hp (hj _ _)
  | joining hp' hf =>
    rw [hp] at hp'
    cases hp'
    exact ⟨rfl, hf⟩
  | ended hp' =>
    rw [hp] at hp'
    cases hp'

theorem Breaks.streamed (h : Breaks setup spec past r) :
    r.streamed? = some spec ∨ ∃ outcome, r.phase = .ended outcome := by
  cases h with
  | waiting hp => exact .inl hp
  | joining hp => exact .inl (by rw [streamed?, hp])
  | ended hp => exact .inr ⟨_, hp⟩

theorem Breaks.of_isOver (h : Breaks setup spec past r) (hover : r.isOver = true) :
    ∃ outcome fatal, r.phase = .ended outcome ∧ r.tasks = [] ∧
      past.flatMap (·.fatal setup) = fatal.toList ∧ outcome = logError? fatal r.failures := by
  cases h with
  | waiting hp =>
    unfold isOver at hover
    unfold streamed? at hp
    split at hover <;> simp_all
  | joining hp => simp [isOver, hp] at hover
  | ended hp ht hf => exact ⟨_, _, hp, ht, hf, rfl⟩

theorem Breaks.still (h : Breaks setup spec past e.before) (hf : e.fatal setup = [])
    (hp : e.after.phase = e.before.phase)
    (hkeep : e.before.tasks = [] → e.after.tasks = [] ∧ e.after.failures = e.before.failures) :
    Breaks setup spec (past ++ [e]) e.after := by
  have hall : (past ++ [e]).flatMap (·.fatal setup) = past.flatMap (·.fatal setup) :=
    RunEvent.flatMap_concat_of_nil hf
  have hs : e.after.streamed? = e.before.streamed? := by simp only [streamed?, hp]
  cases h with
  | waiting hp' hj hf' => exact .waiting (hs.trans hp') (by rwa [hp]) (hall.trans hf')
  | joining hp' hf' => exact .joining (hp.trans hp') (hall.trans hf')
  | ended hp' ht hf' =>
    obtain ⟨htasks, hfailures⟩ := hkeep ht
    rw [← hfailures] at hp'
    exact .ended (hp.trans hp') htasks (hall.trans hf')

/-- a log task is joined, and the others are joined next -/
theorem Breaks.at_joining (h : Breaks setup spec past e.before) {pod : PodSpec}
    {fatal : Option RunError} (hp : e.before.phase = .joining pod fatal)
    (hsame : e.after.phase = e.before.phase) (hf : e.fatal setup = []) :
    Breaks setup spec (past ++ [e]) e.after := by
  obtain ⟨rfl, hfatal⟩ := h.of_joining hp
  exact .joining (hsame.trans hp) ((RunEvent.flatMap_concat_of_nil hf).trans hfatal)

theorem afterJoining_of_logs (h : r.extent = .logs) (spec : PodSpec) (fatal : Option RunError)
    (now : Nat) :
    r.afterJoining setup spec fatal now = r.goTo (.ended (logError? fatal r.failures)) now := by
  simp only [afterJoining, h]

theorem Tallied.transition (h : Tallied setup spec past e.before) (hunc : e.Uncancelled)
    (ht : Transition setup e.before e.seen e.after e.left) :
    Tallied setup spec (past ++ [e]) e.after := by
  obtain ⟨new, hforks⟩ := forks_of_transition ht
  have ho := hforks.openings
  have hstreamed := h.breaks.streamed
  have hquiet (hp : ∀ spec s, e.before.phase ≠ .streaming spec s) :
      (past ++ [e]).flatMap (·.fatal setup) = past.flatMap (·.fatal setup) :=
    RunEvent.flatMap_concat_of_nil (RunEvent.fatal_of_phase hp)
  obtain ⟨task, r, w, r', w'⟩ := e
  have ht : Transition setup r w r' w' := ht
  cases ht with
  | cancelledEarly hp | buildPanicked hp | buildRefused hp | built hp | createRefused hp
  | created hp | finishingLook hp | finishingAgain hp | deleteRefused hp | deleted hp =>
    simp [streamed?, hp] at hstreamed
  | asked =>
    refine h.begins (begins_of_tasks rfl rfl rfl) ho ?_
    exact h.breaks.still (RunEvent.fatal_of_no_call rfl) rfl fun hnil => ⟨hnil, rfl⟩
  | cancelled hp hc =>
    obtain hs | ⟨outcome, hp'⟩ := hstreamed
    · have hnot : w.cancelled = false := hunc fun hnone => by cases hnone.symm.trans hs
      rw [hc] at hnot
      cases hnot
    · have hp' : r.phase = .ended outcome := hp'
      simp [inHand?, hp'] at hp
  | @streamingLook pod s watch outcome _ hp _ _ ha =>
    obtain ⟨rfl, hf⟩ := h.breaks.of_waiting (by rw [streamed?, hp]) (by simp [hp])
    refine h.begins (begins_afterStreaming r pod { s with watch } w.now outcome) ho ?_
    exact breaks_afterStreaming (Watch.look_of_answer ha) hf (RunEvent.fatal_of_look hp ha rfl)
      w.now
  | streamingAgain hp _ _ ha =>
    obtain ⟨rfl, hf⟩ := h.breaks.of_waiting (by rw [streamed?, hp]) (by simp [hp])
    refine h.begins (begins_of_tasks rfl rfl rfl) ho (.waiting rfl (by simp [goToAfter]) ?_)
    rw [RunEvent.flatMap_concat, RunEvent.fatal_of_look hp ha rfl, hf]
    rfl
  | @announced pod s container hp =>
    obtain ⟨rfl, hf⟩ := h.breaks.of_waiting (by rw [streamed?, hp]) (by simp [hp])
    have hall := hquiet (by simp [hp])
    refine h.begins (begins_afterNotice r pod s container w.now) ho ?_
    obtain hp' | hp' := phase_afterNotice r pod s container w.now
    · exact .waiting (by simp only [streamed?, hp']) (by simp [hp']) (hall.trans hf)
    · exact .joining hp' (hall.trans hf)
  | @joinedPanicked pod fatal t tasks hp _ hj hpanicked =>
    have hdue : t.due = [panicError t] := by
      rw [LogTask.due_of_isOver (joinable?_spec hj).1, if_pos hpanicked]
    refine h.join hj (by rw [hdue]) rfl ho ?_
    exact h.breaks.at_joining hp rfl (RunEvent.fatal_of_phase (by simp [hp]))
  | @joined pod fatal t tasks hp _ hj hended =>
    have hdue : t.due = [] := by
      rw [LogTask.due_of_isOver (joinable?_spec hj).1, if_neg (by simp [hended])]
    refine h.join hj (by rw [hdue, List.append_nil]) rfl ho ?_
    exact h.breaks.at_joining hp rfl (RunEvent.fatal_of_phase (by simp [hp]))
  | @joinedAll pod fatal hp _ hnil =>
    obtain ⟨rfl, hf⟩ := h.breaks.of_joining hp
    have hafter : r.afterJoining setup pod fatal w.now =
        r.goTo (.ended (logError? fatal r.failures)) w.now :=
      afterJoining_of_logs h.logs pod fatal _
    have hbegins : Begins pod r (r.afterJoining setup pod fatal w.now) := by
      rw [hafter]
      exact begins_of_tasks rfl rfl rfl
    refine h.begins hbegins ho (.ended ?_ ?_ ((hquiet (by simp [hp])).trans hf))
    · dsimp only
      rw [hafter]
      rfl
    · dsimp only
      rw [hafter]
      exact hnil

/-- as a log task makes a step, what it tells and has still to tell is what it had to tell before,
and what is added to that -/
theorem perm_of_told {α : Type} {made whole : List α} {f : LogTask → List α}
    {front back : List LogTask} {t t' : LogTask}
    (h : (made ++ (front ++ t :: back).flatMap f).Perm whole) {done more : List α}
    (ht : done ++ f t' = f t ++ more) :
    (made ++ done ++ (front ++ t' :: back).flatMap f).Perm (whole ++ more) := by
  refine List.Perm.trans ?_ (h.append_right more)
  simp only [List.flatMap_append, List.flatMap_cons, List.append_assoc]
  refine List.Perm.append_left made ?_
  refine (List.perm_append_comm_assoc done (front.flatMap f) _).trans ?_
  rw [← List.append_assoc done, ht, List.append_assoc]
  exact (List.perm_append_comm.append_left (f t)).append_left (front.flatMap f)

theorem Tallied.event (h : Tallied setup spec past e.before) {all : List LogTask}
    (hs : Staff setup past all e.before) (hunc : e.Uncancelled)
    (hopen : e.seen.channel.isOpen = true) (hv : e.Valid setup) :
    Tallied setup spec (past ++ [e]) e.after := by
  unfold RunEvent.Valid at hv
  split at hv
  · exact h.transition hunc (transition_of_act hv)
  · obtain ⟨t, result, hfind, ht, hleft, hafter⟩ := transition_of_actTask hv
    have hmem := List.mem_of_find?_eq_some hfind
    obtain ⟨front, back, hsplit, hput⟩ := hs.exists_split hmem
    obtain ⟨hid, -⟩ := ht.outputs hleft
    have hcalls := ht.calls
    have hpod := h.pods t hmem
    have hdue := ht.due hleft hopen
    rw [hpod] at hdue
    refine ⟨by rw [hafter]; exact h.logs, fun u hu => ?_, ?_, ?_⟩
    · rw [hafter] at hu
      obtain rfl | ⟨hu, -⟩ := mem_putTask hu
      · exact hcalls.1.trans hpod
      · exact h.pods u hu
    · have haccount := h.account
      rw [hsplit] at haccount
      rw [RunEvent.flatMap_concat, hafter]
      show (e.before.failures ++ result.failure.toList ++
        (putTask result.task e.before.tasks).flatMap LogTask.due).Perm _
      rw [hput result.task hid]
      exact perm_of_told haccount hdue
    · refine h.breaks.still ?_ (by rw [hafter]) fun hnil => ?_
      · obtain hsame | hopened := hcalls.2
        · exact RunEvent.fatal_of_no_call (by rw [hleft]; exact hsame)
        · exact RunEvent.fatal_of_opened (by rw [hleft]; exact hopened)
      · rw [hnil] at hmem
        cases hmem

/-- when all log tasks are joined, all that comes of their streams was told -/
theorem Tallied.failures_perm (h : Tallied setup spec past r) (ht : r.tasks = [])
    {opened : List (String × LogOpening)}
    (ho : (past.flatMap (·.openings setup)).Perm opened) :
    r.failures.Perm
      (opened.filterMap fun o => o.2.failure? setup.config.sanitize spec.ref o.1) := by
  have haccount := h.account
  rw [ht, List.flatMap_nil, List.append_nil] at haccount
  refine haccount.trans ?_
  have htold : past.flatMap (LogTask.told setup spec.ref) =
      (past.flatMap (·.openings setup)).flatMap fun o =>
        (o.2.failure? setup.config.sanitize spec.ref o.1).toList := List.flatMap_assoc.symm
  rw [htold, List.filterMap_eq_flatMap_toList]
  exact ho.flatMap_right _

/-! ## one log task after the other -/

theorem stepsOf_partition {β : Type} (f : RunEvent σ → List β) {n : Nat}
    (h : ∀ e ∈ past, ∀ id, e.task = some id → id < n) :
    (past.flatMap f).Perm ((stepsOf none past).flatMap f ++
      (List.range n).flatMap fun id => (stepsOf (some id) past).flatMap f) := by
  induction n generalizing past with
  | zero =>
    have hall : stepsOf none past = past := by
      refine List.filter_eq_self.2 fun e he => ?_
      cases htask : e.task with
      | none => rfl
      | some id => exact absurd (h e he id htask) (Nat.not_lt_zero id)
    rw [hall, List.range_zero, List.flatMap_nil, List.append_nil]
  | succ n ih =>
    -- the steps of the last log task are taken apart from all others
    have hcut : (past.filter (fun e => e.task = some n)
        ++ past.filter fun e => !(e.task = some n : Bool)).Perm past :=
      List.filter_append_perm _ past
    have hothers := @ih (past.filter fun e => !(e.task = some n : Bool))
      fun e he id hid => by
        obtain ⟨he, hne⟩ := List.mem_filter.1 he
        have hlt := h e he id hid
        have hid' : id ≠ n := by
          rintro rfl
          simp [hid] at hne
        omega
    have hkeep (task : Option Nat) (hne : task ≠ some n) :
        stepsOf task (past.filter fun e => !(e.task = some n : Bool)) = stepsOf task past := by
      rw [stepsOf, stepsOf, List.filter_filter]
      refine List.filter_congr fun e _ => ?_
      by_cases htask : e.task = task
      · simp [htask, hne]
      · simp [htask]
    rw [hkeep none (by simp)] at hothers
    have hsame : (List.range n).flatMap (fun id =>
        (stepsOf (some id) (past.filter fun e => !(e.task = some n : Bool))).flatMap f) =
          (List.range n).flatMap fun id => (stepsOf (some id) past).flatMap f :=
      List.flatMap_congr fun id hid => by
        rw [hkeep (some id) (by simpa using Nat.ne_of_lt (List.mem_range.1 hid))]
    rw [hsame] at hothers
    rw [List.range_succ, List.flatMap_append, List.flatMap_singleton, ← List.append_assoc]
    refine (hcut.symm.flatMap_right f).trans ?_
    rw [List.flatMap_append]
    exact List.perm_append_comm.trans (hothers.append_right _)

theorem flatMap_range_of_singletons {α : Type} {g : Nat → List α} {n : Nat}
    (h : ∀ id < n, ∃ a, g id = [a]) :
    ((List.range n).flatMap g).length = n ∧
      ∀ id a, ((List.range n).flatMap g)[id]? = some a → g id = [a] := by
  induction n with
  | zero => simp
  | succ n ih =>
    obtain ⟨hlength, hplaces⟩ := ih fun id hid => h id (Nat.lt_succ_of_lt hid)
    obtain ⟨last, hlast⟩ := h n (Nat.lt_succ_self n)
    rw [List.range_succ, List.flatMap_append, List.flatMap_singleton, hlast]
    refine ⟨by rw [List.length_append, hlength, List.length_singleton], fun id a ha => ?_⟩
    rw [List.getElem?_append] at ha
    split at ha
    next => exact hplaces id a ha
    next hid =>
      rw [hlength] at ha hid
      have hzero : id - n = 0 := by
        have hlt := (List.getElem?_eq_some_iff.1 ha).1
        simpa using hlt
      rw [hzero] at ha
      cases ha
      rw [show id = n by omega, hlast]

theorem Streamed.exists_opened {step : String} (h : Streamed setup step past r)
    (hend : r.streamed? = none) (hunc : ∀ e ∈ past, e.Uncancelled)
    (hopen : ∀ e ∈ past, e.seen.channel.isOpen = true) :
    ∃ opened : List (String × LogOpening),
      opened.map (·.1) = past.flatMap (·.forked setup) ∧
      (past.flatMap (·.openings setup)).Perm opened ∧
      ∀ (id : Nat) name opening, opened[id]? = some (name, opening) →
        (stepsOf (some id) past).flatMap (·.openings setup) = [(name, opening)] ∧
          (stepsOf (some id) past).flatMap (·.sent) =
            (opening.lines setup.config.sanitize).map (.output step name) := by
  obtain ⟨-, all, hstaff, hledger, hover⟩ := h.complete hend hunc
  -- each task has opened its stream, and has sent what it is made of
  have htask (id : Nat) (hid : id < all.length) : ∃ opening,
      (stepsOf (some id) past).flatMap (·.openings setup) = [(all[id].container, opening)] ∧
        (stepsOf (some id) past).flatMap (·.sent) =
          (opening.lines setup.config.sanitize).map (.output step all[id].container) := by
    have hmem : all[id] ∈ all := List.getElem_mem hid
    have hnumber := hstaff.numbered id all[id] (List.getElem?_eq_getElem hid)
    have hstory := (hstaff.story all[id] hmem).of_isOver (hover all[id] hmem) fun e he =>
      hopen e (List.mem_filter.1 he).1
    rw [hnumber, hstaff.step all[id] hmem, h.named] at hstory
    exact hstory
  let opened := (List.range all.length).flatMap fun id =>
    (stepsOf (some id) past).flatMap (·.openings setup)
  obtain ⟨hlength, hplaces⟩ : opened.length = all.length ∧ ∀ (id : Nat) (o : String × LogOpening),
      opened[id]? = some o → (stepsOf (some id) past).flatMap (·.openings setup) = [o] :=
    flatMap_range_of_singletons fun id hid => by
      obtain ⟨opening, hopened, -⟩ := htask id hid
      exact ⟨_, hopened⟩
  have hown : (stepsOf none past).flatMap (·.openings setup) = [] := by
    refine List.flatMap_eq_nil_iff.2 fun e he => List.eq_nil_iff_forall_not_mem.2 fun o ho => ?_
    obtain ⟨he, hnone⟩ := List.mem_filter.1 he
    obtain ⟨id, hid, -⟩ := hledger.opened e he o ho
    rw [hid] at hnone
    simp at hnone
  have hall := stepsOf_partition (·.openings setup) hstaff.known
  rw [hown] at hall
  refine ⟨opened, ?_, hall, fun id name opening ho => ?_⟩
  · rw [← hstaff.names]
    refine List.ext_getElem (by simpa using hlength) fun id hid hid' => ?_
    rw [List.length_map] at hid hid'
    rw [List.getElem_map, List.getElem_map]
    obtain ⟨opening, hopened, -⟩ := htask id hid'
    rw [hplaces id opened[id] (List.getElem?_eq_getElem hid)] at hopened
    rw [(List.cons.inj hopened).1]
  · have hid : id < all.length := hlength ▸ (List.getElem?_eq_some_iff.1 ho).1
    have hplace := hplaces id _ ho
    obtain ⟨opening', hopened, hsent⟩ := htask id hid
    obtain ⟨rfl, rfl⟩ := Prod.mk.inj (List.cons.inj (hplace.symm.trans hopened)).1
    exact ⟨hplace, hsent⟩

end Run

namespace Crew

variable {setup : Setup σ} {c : Crew σ} {i : Nat} {r : Run} {spec : PodSpec}

theorem tallied_of_play (hr : c.runs[i]? = some r) (hp : r.phase = Run.beginStreaming setup spec)
    (hext : r.extent = .logs) (hs : r.started = 0) (ht : r.tasks = []) (hf : r.failures = [])
    (moves : List Move)
    (hgood : ∀ e ∈ c.events setup i moves, e.Uncancelled ∧ e.seen.channel.isOpen = true) :
    ∃ r', (c.play setup moves).runs[i]? = some r' ∧
      r'.Tallied setup spec (c.events setup i moves) := by
  have hplay := play_induction_of
    (Q := fun past r => Run.Streamed setup r.step.name past r ∧ Run.Tallied setup spec past r)
    (fun past e hgood h hv => ?_) moves hgood hr
    ⟨Run.streamed_begin hp hs ht, Run.tallied_begin hp hext ht hf⟩
  · obtain ⟨r', hr', -, h⟩ := hplay
    exact ⟨r', hr', h⟩
  · obtain ⟨hstreamed, htallied⟩ := h
    have hnext := hstreamed.event hv
    obtain ⟨-, -, all, hstaff, -⟩ := hstreamed
    refine ⟨?_, htallied.event hstaff hgood.1 hgood.2 hv⟩
    rw [hnext.named]
    exact hnext

/-- **How a run that streams logs ends**, as long as the token has not fired and the reader is
there.  It is never stuck and makes no more steps than its waits and the lines take; and when it is
over, each log task that it has started has opened one stream and sent all lines that are in it.  If
the wait for containers to be ready was broken off, the run ends with the error that has done so.
Otherwise it ends well if no log task has failed, or else with one error for each that has: the
refused opening, the failed read with the number of lines sent before it, or the panic. -/
theorem joined_of_play (hr : c.runs[i]? = some r) (hp : r.phase = Run.beginStreaming setup spec)
    (hext : r.extent = .logs) (hs : r.started = 0) (ht : r.tasks = []) (hf : r.failures = [])
    (hopen : c.world.channel.isOpen = true) (hroom : 0 < c.world.channel.room)
    (moves : List Move) (hunc : ∀ e ∈ c.events setup i moves, e.Uncancelled) :
    let last := c.play setup moves
    let events := c.events setup i moves
    let fatal := events.flatMap (·.fatal setup)
    ∃ r', last.runs[i]? = some r' ∧ Run.Frugal setup events r' ∧
      (r'.isOver = false → (∃ a, (last.act setup a).isSome = true) ∨ last.tick.isSome = true) ∧
      (r'.isOver = true → ∃ outcome, ∃ opened : List (String × LogOpening),
        r'.phase = .ended outcome ∧ r'.tasks = [] ∧
        opened.map (·.1) = events.flatMap (·.forked setup) ∧
        (∀ (id : Nat) name opening, opened[id]? = some (name, opening) →
          (Run.stepsOf (some id) events).flatMap (·.openings setup) = [(name, opening)] ∧
          (Run.stepsOf (some id) events).flatMap (·.sent) =
            (opening.lines setup.config.sanitize).map (.output r.step.name name) ∧
          ∀ lines source, opening.failure? setup.config.sanitize spec.ref name =
            some (.readLogStream spec.ref.text name lines source) →
              lines = ((Run.stepsOf (some id) events).flatMap (·.sent)).length) ∧
        let failed := opened.filterMap fun o => o.2.failure? setup.config.sanitize spec.ref o.1
        ((∃ error, fatal = [error] ∧ outcome = some error) ∨
          (fatal = [] ∧ (failed = [] → outcome = none) ∧
            (failed ≠ [] → ∃ errors, outcome = some (.logStreaming errors) ∧
              errors.Perm failed)))) := by
  intro last events fatal
  have hlimited : r.Limited setup.config.pollLimit ∧
      r.work setup.config.pollLimit ≤ 4 * setup.config.pollLimit + 6 := by
    have hlimit := Run.pollLimit_pos setup.config
    simp only [Run.Limited, Run.work, hp, Run.beginStreaming]
    refine ⟨⟨rfl, hlimit⟩, ?_⟩
    omega
  obtain ⟨r', hr', hfrugal⟩ := frugal_of_begin hr hlimited.1 hlimited.2 hs ht moves
  refine ⟨r', hr', hfrugal, able_of_room (by rw [room_play]; exact hroom) hr', fun hover => ?_⟩
  have hopen' : ∀ e ∈ events, e.seen.channel.isOpen = true := fun e he =>
    (isOpen_of_mem_events he).trans hopen
  obtain ⟨s, hs', hstreamed⟩ := streamed_of_play hr hp hs ht moves
  obtain ⟨u, hu, htallied⟩ := tallied_of_play hr hp hext hs ht hf moves fun e he =>
    ⟨hunc e he, hopen' e he⟩
  obtain rfl := Option.some.inj (hr'.symm.trans hs')
  obtain rfl := Option.some.inj (hr'.symm.trans hu)
  obtain ⟨outcome, fatal', hphase, htasks, hfatal, rfl⟩ := htallied.breaks.of_isOver hover
  have hend : r'.streamed? = none := by simp only [Run.streamed?, hphase]
  obtain ⟨opened, hnames, hall, hplaces⟩ := hstreamed.exists_opened hend hunc hopen'
  have hfailures := htallied.failures_perm htasks hall
  refine ⟨_, opened, hphase, htasks, hnames, fun id name opening ho => ?_, ?_⟩
  · obtain ⟨hopened, hsent⟩ := hplaces id name opening ho
    refine ⟨hopened, hsent, fun lines source hfails => ?_⟩
    rw [hsent, List.length_map]
    exact LogOpening.lines_of_failure? hfails
  · cases fatal' with
    | some error => exact .inl ⟨error, hfatal, rfl⟩
    | none =>
      refine .inr ⟨hfatal, fun hnil => ?_, fun hne => ?_⟩
      · rw [hnil] at hfailures
        simp [Run.logError?, hfailures.eq_nil]
      · have hsome : r'.failures ≠ [] := fun hnil => by
          rw [hnil] at hfailures
          exact hne hfailures.nil_eq.symm
        exact ⟨r'.failures, by simp [Run.logError?, hsome], hfailures⟩

/-- four containers: one whose logs are read to the end, one whose logs fail after a line, one whose
stream is refused, and one whose opening breaks off -/
theorem joined_of_failures :
    let platform : Platform (List PodSnapshot) :=
      { replay with openLogs := fun pod container shown =>
          (if container = "a" then .stream (.ofReads [.data [0x68, 0x69, 0x0A]])
            else if container = "b" then
              .stream (.ofReads [.data [0x68, 0x69, 0x0A], .failure ⟨"BrokenPipe", "gone"⟩])
            else if container = "c" then .failed (.podNotFound pod) else .panicked, shown) }
    let setup : Setup (List PodSnapshot) := ⟨platform, {}, fun _ => .panicked⟩
    let spec : PodSpec := { name := "p", namespaceName := "ns", containers := [] }
    let ready : PodSnapshot :=
      { phase := .running
        statuses := [.running "a" true, .running "b" true, .running "c" true, .running "d" true] }
    let r : Run :=
      { step := { name := "s", image := "" }, extent := .logs
        phase := Run.beginStreaming setup spec }
    let c := ofRuns [r] { state := List.replicate 4 ready, channel := { room := 9 } } none
    let run (times : Nat) : List Move := List.replicate times (.act (.run 0))
    let tasks : List Move :=
      (List.replicate 5 [2, 0, 3, 1]).flatten.map fun id => .act (.logTask 0 id)
    let moves := run 12 ++ tasks ++ run 5
    let told : RunError → String × Nat
      | .readLogStream _ container lines _ => (container, lines)
      | .openLogStream _ container _ => (container, 0)
      | _ => ("", 0)
    ∃ r' errors, ∃ opened : List (String × LogOpening),
      (c.play setup moves).runs[0]? = some r' ∧ r'.phase = .ended (some (.logStreaming errors)) ∧
      errors.map told = [("c", 0), ("b", 1), ("", 0)] ∧ opened.map (·.1) = ["a", "b", "c", "d"] ∧
      errors.Perm (opened.filterMap fun o =>
        o.2.failure? setup.config.sanitize spec.ref o.1) := by
  intro platform setup spec ready r c run tasks moves told
  have hunc : (c.events setup 0 moves).all (fun e => !e.seen.cancelled) = true := by
    decide +kernel
  have hend : ((c.play setup moves).runs[0]?.bind (·.error?)).map (fun error =>
      match error with
      | .logStreaming errors => errors.map told
      | _ => []) = some [("c", 0), ("b", 1), ("", 0)] := by decide +kernel
  have hforked : (c.events setup 0 moves).flatMap (·.forked setup) = ["a", "b", "c", "d"] := by
    decide +kernel
  have hfatal : ((c.events setup 0 moves).flatMap (·.fatal setup)).isEmpty = true := by
    decide +kernel
  obtain ⟨r', hr', -, -, hjoined⟩ := joined_of_play (c := c) (r := r) (i := 0) rfl rfl rfl rfl rfl
    rfl rfl (by decide) moves fun e he _ => by simpa using List.all_eq_true.1 hunc e he
  rw [hr', Option.bind_some] at hend
  obtain ⟨error, herror, htold⟩ := Option.map_eq_some_iff.1 hend
  have hover : r'.isOver = true := by
    unfold Run.error? at herror
    unfold Run.isOver
    split at herror
    next hp => rw [hp]
    next => cases herror
  obtain ⟨outcome, opened, hphase, -, hnames, -, hresult⟩ := hjoined hover
  obtain rfl : outcome = some error := by
    simpa only [Run.error?, hphase] using herror
  obtain ⟨broken, hbroken, -⟩ | ⟨-, hnone, hsome⟩ := hresult
  · rw [hbroken] at hfatal
    cases hfatal
  · obtain ⟨errors, herrors, hperm⟩ := hsome fun hnil => by cases hnone hnil
    cases herrors
    exact ⟨r', errors, opened, hr', hphase, htold, hnames.trans hforked, hperm⟩

end Crew

end StepRunner
