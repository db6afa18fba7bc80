import StepRunner.Run.LogTask
import StepRunner.Run.Verdict
import StepRunner.Stage.Builder
import StepRunner.Wait.Watch

/-!
# The run of a step

A step is run as one pod: the pod is built and created, the logs of its containers are streamed
until all of them were seen ready, its end is waited for, and the pod is deleted.  Between creation
and deletion the cancellation token ends the run; the pod is deleted all the same.

A run is a state machine.  It makes one step at a time, and a step holds at most one call on the
platform or one line sent, so that steps of several runs and of their log tasks may be taken in any
order.

* `Built`        what building a pod comes to
* `Setup σ`      platform, configuration and builder
* `Run.Phase`    how far a run is
* `Run`          a run with its log tasks
* `Run.act`      one step of a run, if it can make one
* `Run.actTask`  one step of one of its log tasks
-/

namespace StepRunner

/-! ## surroundings -/

inductive Built where
  | spec (s : PodSpec)
  | refused (reason : String)
  /-- the builder breaks the run off -/
  | panicked

structure Setup (σ : Type) where
  platform : Platform σ
  config : Config
  build : StepDefinition → Built

/-- how much of a run is wanted -/
inductive Extent where
  /-- all of it -/
  | whole
  /-- the logs of a pod that is there -/
  | logs
  /-- the end of a pod that is there -/
  | finish
deriving DecidableEq, Repr

/-! ## phases -/

/-- a wait for containers to be ready, and the containers whose logs were asked for -/
structure Streaming where
  watch : Watch
  polls : Nat := 0
  streamed : List String := []

/-- a wait for containers to be done, and those that are -/
structure Finishing where
  watch : Watch
  polls : Nat := 0
  containers : List Observation := []

/-- how far a run is; the error of an outcome is `none` where all went well -/
inductive Run.Phase where
  | start
  | creating (spec : PodSpec)
  | streaming (spec : PodSpec) (s : Streaming)
  /-- a container is ready and its notice is to be sent -/
  | announcing (spec : PodSpec) (s : Streaming) (container : String)
  /-- the log tasks are joined; `fatal` has ended the wait, if anything has -/
  | joining (spec : PodSpec) (fatal : Option RunError)
  | finishing (spec : PodSpec) (f : Finishing)
  | deleting (spec : PodSpec) (outcome : Option RunError)
  | ended (outcome : Option RunError)
  /-- the builder has broken the run off -/
  | panicked

structure Run where
  step : StepDefinition
  extent : Extent := .whole
  phase : Run.Phase := .start
  /-- when the phase goes on -/
  timer : Timer := ⟨0, false⟩
  tasks : List LogTask := []
  /-- log tasks started so far -/
  started : Nat := 0
  /-- failures of log tasks -/
  failures : List RunError := []
  /-- what the wait for the end of the pod has seen, once it is over -/
  report : Option FinishedPod := none

namespace Run

variable {σ : Type}

def isOver (r : Run) : Bool :=
  match r.phase with
  | .ended _ | .panicked => true
  | _ => false

def error? (r : Run) : Option RunError :=
  match r.phase with
  | .ended outcome => outcome
  | _ => none

def isPanicked (r : Run) : Bool :=
  match r.phase with
  | .panicked => true
  | _ => false

def goTo (r : Run) (phase : Phase) (now : Nat) : Run := { r with phase, timer := ⟨now, false⟩ }

def goToAfter (r : Run) (phase : Phase) (now pause : Nat) : Run :=
  { r with phase, timer := ⟨wakeTime now pause, false⟩ }

/-! ## the parts of a run -/

def beginStreaming (setup : Setup σ) (spec : PodSpec) : Phase :=
  .streaming spec { watch := .begin spec.ref .ready setup.config.pollLimit }

def beginFinishing (setup : Setup σ) (spec : PodSpec) : Phase :=
  .finishing spec { watch := .begin spec.ref .done setup.config.pollLimit }

def spawn (r : Run) (pod : PodRef) (container : String) (now : Nat) : Run :=
  { r with
      tasks := r.tasks ++ [.begin r.started pod r.step.name container now]
      started := r.started + 1 }

/-- starts a log task for each container that has started and has none yet -/
def spawnLate (pod : PodRef) (now : Nat) (streamed : List String) : List Observation → Run → Run
  | [], r => r
  | o :: rest, r =>
    if o.state = .waiting ∨ o.state = .unknown ∨ o.name ∈ streamed then
      spawnLate pod now streamed rest r
    else spawnLate pod now (o.name :: streamed) rest (r.spawn pod o.name now)

/-- cancels the run: its log tasks are dropped, and its pod is deleted -/
def cancel (r : Run) (spec : PodSpec) (now : Nat) : Run :=
  { r with tasks := [] }.goTo (.deleting spec (some (.cancelled r.step.name))) now

/-- goes on after the wait for containers to be ready has ended -/
def afterStreaming (r : Run) (spec : PodSpec) (s : Streaming) (now : Nat) : Watch.Outcome → Run
  | .ok o => r.goTo (.announcing spec s o.name) now
  | .error (.podFinished ..) =>
    (spawnLate spec.ref now s.streamed s.watch.pending r).goTo (.joining spec none) now
  | .error (.nothingToWaitFor _) => r.goTo (.joining spec none) now
  | .error e => r.goTo (.joining spec (some e)) now

/-- goes on after a notice was sent: to the next container, or to the log tasks -/
def afterNotice (r : Run) (spec : PodSpec) (s : Streaming) (container : String) (now : Nat) : Run :=
  let r := r.spawn spec.ref container now
  let s := { s with polls := 0, streamed := container :: s.streamed }
  r.goTo (if s.watch.remaining then .streaming spec s else .joining spec none) now

/-- the error that the log phase ends with, if any -/
def logError? (fatal : Option RunError) (failures : List RunError) : Option RunError :=
  match fatal with
  | some e => some e
  | none => if failures.isEmpty then none else some (.logStreaming failures)

/-- goes on after the log tasks were joined -/
def afterJoining (setup : Setup σ) (r : Run) (spec : PodSpec) (fatal : Option RunError)
    (now : Nat) : Run :=
  let error := logError? fatal r.failures
  match r.extent, error with
  | .whole, none => r.goTo (beginFinishing setup spec) now
  | .whole, some e => r.goTo (.deleting spec (some e)) now
  | _, error => r.goTo (.ended error) now

/-- goes on after the wait for containers to be done is over -/
def closeFinishing (setup : Setup σ) (r : Run) (spec : PodSpec) (report : FinishedPod) (now : Nat) :
    Run :=
  let r := { r with report := some report }
  match r.extent with
  | .whole =>
    r.goTo (.deleting spec (report.verdict? setup.config.checkExitCodes spec.ref.text)) now
  | _ => r.goTo (.ended none) now

/-- goes on after a wait for a container to be done has ended -/
def afterFinishing (setup : Setup σ) (r : Run) (spec : PodSpec) (f : Finishing) (now : Nat) :
    Watch.Outcome → Run
  | .ok o =>
    let f := { f with polls := 0, containers := noteContainer o f.containers }
    if f.watch.remaining then r.goTo (.finishing spec f) now
    else closeFinishing setup r spec ⟨f.watch.phase, f.containers, []⟩ now
  | .error (.nothingToWaitFor _) =>
    closeFinishing setup r spec ⟨f.watch.phase, f.containers, []⟩ now
  | .error (.podFinished ..) =>
    closeFinishing setup r spec ⟨f.watch.phase, f.containers, f.watch.pending⟩ now
  | .error e =>
    match r.extent with
    | .whole => r.goTo (.deleting spec (some e)) now
    | _ => r.goTo (.ended (some e)) now

/-- the first log task that is over, and the others -/
def joinable? : List LogTask → Option (LogTask × List LogTask)
  | [] => none
  | t :: rest =>
    if t.isOver then some (t, rest) else (joinable? rest).map fun (u, rest) => (u, t :: rest)

def panicError (t : LogTask) : RunError := .logTaskPanicked t.pod.text "the task panicked"

/-! ## one step -/

def act (setup : Setup σ) (r : Run) (w : World σ) : Option (Run × World σ) :=
  let platform := setup.platform
  match r.phase with
  | .start =>
    if w.cancelled then some (r.goTo (.ended (some (.cancelled r.step.name))) w.now, w)
    else match setup.build r.step with
      | .panicked => some (r.goTo .panicked w.now, w)
      | .refused reason =>
        some (r.goTo (.ended (some (.buildPodSpec r.step.name reason))) w.now, w)
      | .spec spec => some (r.goTo (.creating spec) w.now, w)
  | .creating spec =>
    match r.timer.turn w.now (platform.delay .create spec.ref w.state) with
    | .wait => none
    | .ask timer => some ({ r with timer }, w)
    | .go =>
      match platform.create spec w.state with
      | (.error e, state) =>
        some (r.goTo (.ended (some (.createPod spec.ref.text e))) w.now,
          w.after state spec.ref (.created false))
      | (.ok identity, state) =>
        let w := w.after state spec.ref (.created true)
        some (r.goTo (beginStreaming setup spec) w.now,
          if identity.isNone then w.warn [.noPodReturned] else w)
  | .streaming spec s =>
    if w.cancelled then some (r.cancel spec w.now, w)
    else match r.timer.turn w.now (platform.delay .fetch spec.ref w.state) with
      | .wait => none
      | .ask timer => some ({ r with timer }, w)
      | .go =>
        let (answer, w) := w.fetch platform spec.ref
        match s.watch.answer s.polls answer with
        | (watch, some outcome, warnings) =>
          some (r.afterStreaming spec { s with watch } w.now outcome, w.warn warnings)
        | (watch, none, warnings) =>
          some (r.goToAfter (.streaming spec { s with watch, polls := s.polls + 1 }) w.now
            setup.config.pollInterval.toNat, w.warn warnings)
  | .announcing spec s container =>
    if w.cancelled then some (r.cancel spec w.now, w)
    else if w.channel.canSend then
      some (r.afterNotice spec s container w.now, w.send (.containerReady r.step.name container))
    else none
  | .joining spec fatal =>
    if w.cancelled then some (r.cancel spec w.now, w)
    else match joinable? r.tasks with
      | some (task, tasks) =>
        if task.isPanicked then
          some ({ r with tasks, failures := r.failures ++ [panicError task] },
            w.warn [.logTaskPanicked])
        else some ({ r with tasks }, w)
      | none =>
        if r.tasks.isEmpty then
          some (r.afterJoining setup spec fatal w.now,
            if fatal.isSome && !r.failures.isEmpty then w.warn [.logTasksAlsoFailed] else w)
        else none
  | .finishing spec f =>
    if w.cancelled then some (r.cancel spec w.now, w)
    else match r.timer.turn w.now (platform.delay .fetch spec.ref w.state) with
      | .wait => none
      | .ask timer => some ({ r with timer }, w)
      | .go =>
        let (answer, w) := w.fetch platform spec.ref
        match f.watch.answer f.polls answer with
        | (watch, some outcome, warnings) =>
          some (r.afterFinishing setup spec { f with watch } w.now outcome, w.warn warnings)
        | (watch, none, warnings) =>
          some (r.goToAfter (.finishing spec { f with watch, polls := f.polls + 1 }) w.now
            setup.config.pollInterval.toNat, w.warn warnings)
  | .deleting spec outcome =>
    match r.timer.turn w.now (platform.delay .delete spec.ref w.state) with
    | .wait => none
    | .ask timer => some ({ r with timer }, w)
    | .go =>
      match platform.delete spec.ref w.state with
      | (.error _, state) =>
        some (r.goTo (.ended outcome) w.now,
          (w.after state spec.ref (.deleted false)).warn [.deleteFailed])
      | (.ok _, state) =>
        some (r.goTo (.ended outcome) w.now, w.after state spec.ref (.deleted true))
  | .ended _ => none
  | .panicked => none

/-- puts a task in the place of the one with its number -/
def putTask (t : LogTask) (tasks : List LogTask) : List LogTask :=
  tasks.map fun u => if u.id = t.id then t else u

/-- one step of the log task with a number, if there is one and it can make one -/
def actTask (setup : Setup σ) (id : Nat) (r : Run) (w : World σ) : Option (Run × World σ) :=
  match r.tasks.find? (·.id = id) with
  | none => none
  | some t =>
    match t.act setup.platform setup.config.sanitize w with
    | none => none
    | some result =>
      some ({ r with
        tasks := putTask result.task r.tasks
        failures := r.failures ++ result.failure.toList }, result.world)

/-- when the run will be able to act, if its phase waits for a time -/
def wake? (r : Run) : Option Nat :=
  match r.phase with
  | .creating _ | .streaming .. | .finishing .. | .deleting .. => some r.timer.wake
  | _ => none

end Run

end StepRunner
