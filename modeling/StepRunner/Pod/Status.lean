import StepRunner.Pod.Spec
import StepRunner.Time.Instant

/-!
# Pods: what is reported

* `PodPhase`           where a pod is in its life
* `ReportedState`      a container's state as a platform reports it: up to three parts
* `ContainerStatus`    a container's status
* `PodSnapshot`        everything that one look at a pod shows
-/

namespace StepRunner

/-! ## phases -/

inductive PodPhase where
  | pending
  | running
  | succeeded
  | failed
  | unknown
deriving DecidableEq, Repr, Inhabited

namespace PodPhase

def text : PodPhase → String
  | .pending => "Pending"
  | .running => "Running"
  | .succeeded => "Succeeded"
  | .failed => "Failed"
  | .unknown => "Unknown"

def ofText? : String → Option PodPhase
  | "Pending" => some .pending
  | "Running" => some .running
  | "Succeeded" => some .succeeded
  | "Failed" => some .failed
  | "Unknown" => some .unknown
  | _ => none

/-- the phase with a name; a name of no phase is unknown -/
def ofText (s : String) : PodPhase := (ofText? s).getD .unknown

/-- whether a pod in this phase has come to its end -/
def isTerminal : PodPhase → Bool
  | .succeeded | .failed => true
  | _ => false

theorem ofText?_text (p : PodPhase) : ofText? p.text = some p := by cases p <;> rfl

end PodPhase

/-! ## containers -/

structure WaitingInfo where
  reason : Option String := none
  message : Option String := none
deriving DecidableEq, Repr

structure RunningInfo where
  startedAt : Option Instant := none
deriving DecidableEq, Repr

structure TerminatedInfo where
  exitCode : Int32
  reason : Option String := none
  finishedAt : Option Instant := none
deriving DecidableEq, Repr

structure ReportedState where
  waiting : Option WaitingInfo := none
  running : Option RunningInfo := none
  terminated : Option TerminatedInfo := none
deriving DecidableEq, Repr, Inhabited

structure ContainerStatus where
  name : String
  ready : Bool
  restartCount : UInt32
  state : ReportedState
deriving DecidableEq, Repr

namespace ContainerStatus

def unknown (name : String) : ContainerStatus := ⟨name, false, 0, {}⟩

def waiting (name reason : String) : ContainerStatus :=
  ⟨name, false, 0, { waiting := some { reason := some reason } }⟩

def running (name : String) (ready : Bool) : ContainerStatus :=
  ⟨name, ready, 0, { running := some {} }⟩

def terminated (name : String) (exitCode : Int32) : ContainerStatus :=
  let reason := if exitCode = 0 then "Completed" else "Error"
  ⟨name, false, 0, { terminated := some { exitCode, reason := some reason } }⟩

end ContainerStatus

/-! ## pods -/

structure PodSnapshot where
  identity : PodIdentity := {}
  phase : PodPhase := .unknown
  initStatuses : List ContainerStatus := []
  statuses : List ContainerStatus := []
deriving DecidableEq, Repr

end StepRunner
