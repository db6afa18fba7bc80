import StepRunner.Log.Scanner
import StepRunner.Run.Error
import StepRunner.Run.World

/-!
# Log tasks

A log task forwards the output of one container: it opens the log stream, scans it line by line,
waiting for each line until it is there, and sends each line.  It ends with the stream, with a
failure, or as soon as it finds the reader gone.

* `LogTask`          a task and how far it is
* `LogTask.act`      one step of a task, if it can make one
-/

namespace StepRunner

/-- how far a log task is -/
inductive LogTask.Phase where
  /-- the stream is being opened -/
  | opening (timer : Timer)
  /-- lines are being forwarded; `line` is read and not sent yet, and `times` are the times of the
  reads left and of the end -/
  | forwarding (scanner : Log.Scanner) (times : List Nat) (line : Option String)
  | ended
  /-- the opening has broken the task off -/
  | panicked

/-- a task that forwards the output of one container -/
structure LogTask where
  id : Nat
  pod : PodRef
  step : String
  container : String
  phase : LogTask.Phase

namespace LogTask

variable {σ : Type}

def isOver (t : LogTask) : Bool :=
  match t.phase with
  | .ended | .panicked => true
  | _ => false

def isPanicked (t : LogTask) : Bool :=
  match t.phase with
  | .panicked => true
  | _ => false

/-- when the task will be able to act, if it waits for a time -/
def wake? (t : LogTask) : Option Nat :=
  match t.phase with
  | .opening timer => some timer.wake
  | .forwarding scanner times none => some (Log.lineTime scanner.reads times)
  | _ => none

def begin (id : Nat) (pod : PodRef) (step container : String) (now : Nat) : LogTask :=
  ⟨id, pod, step, container, .opening ⟨now, false⟩⟩

/-- what one step of a task comes to -/
structure Result (σ : Type) where
  task : LogTask
  world : World σ
  /-- the failure that the task has ended with, if it has -/
  failure : Option RunError := none

def goTo (t : LogTask) (phase : Phase) (world : World σ) : Result σ :=
  { task := { t with phase }, world }

def fail (t : LogTask) (e : RunError) (world : World σ) : Result σ :=
  { task := { t with phase := .ended }, world := world.warn [.logTaskFailed], failure := some e }

/-- the end of a scanned stream -/
def close (t : LogTask) (scanner : Log.Scanner) (world : World σ) : Result σ :=
  match scanner.failure with
  | some f => t.fail (.readLogStream t.pod.text t.container scanner.linesRead f) world
  | none => t.goTo .ended world

def act (platform : Platform σ) (options : Text.SanitizeOptions) (t : LogTask) (w : World σ) :
    Option (Result σ) :=
  match t.phase with
  | .opening timer =>
    match timer.turn w.now (platform.delay .openLogs t.pod w.state) with
    | .wait => none
    | .ask timer => some (t.goTo (.opening timer) w)
    | .go =>
      let (opening, state) := platform.openLogs t.pod t.container w.state
      let w := w.after state t.pod (.opened t.container)
      match opening with
      | .panicked => some (t.goTo .panicked w)
      | .failed e => some (t.fail (.openLogStream t.pod.text t.container e) w)
      | .stream s => some (t.goTo (.forwarding (.ofReads options s.reads) s.times none) w)
  | .forwarding scanner times none =>
    if w.now < Log.lineTime scanner.reads times then none
    else match scanner.advance with
      | (true, scanner', warnings) =>
        let times := times.drop (scanner.reads.length - scanner'.reads.length)
        some (t.goTo (.forwarding scanner' times (some scanner'.line)) (w.warn warnings))
      | (false, scanner', warnings) => some (t.close scanner' (w.warn warnings))
  | .forwarding scanner times (some line) =>
    if !w.channel.isOpen then some (t.goTo .ended w)
    else if w.channel.canSend then
      some (t.goTo (.forwarding scanner times none) (w.send (.output t.step t.container line)))
    else none
  | .ended => none
  | .panicked => none

end LogTask

end StepRunner
