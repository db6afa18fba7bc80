import StepRunner.Pod.Status

/-!
# Observations of a container

One container at one moment, as the waits see it.

* `ContainerState`          waiting, running, terminated or unknown
* `ReportedState.derive`    the first of these that a report names
* `Observation`             a container of a pod at one moment
* `PodSnapshot.observations`   the containers of a snapshot, init containers first
* `firstFailed?`            the first container that ended with a code other than zero
-/

namespace StepRunner

inductive ContainerState where
  | waiting
  | running
  | terminated
  | unknown
deriving DecidableEq, Repr

inductive ContainerRole where
  | init
  | app
deriving DecidableEq, Repr

/-- the state of a container with the given parts in its report: waiting counts before running, and
running before terminated -/
def ContainerState.ofParts (waiting running terminated : Bool) : ContainerState :=
  if waiting then .waiting
  else if running then .running
  else if terminated then .terminated
  else .unknown

def ReportedState.derive (s : ReportedState) : ContainerState :=
  .ofParts s.waiting.isSome s.running.isSome s.terminated.isSome

structure Observation where
  pod : PodIdentity
  name : String
  role : ContainerRole
  state : ContainerState
  ready : Bool
  restartCount : UInt32
  /-- there for a terminated container only -/
  exitCode : Option Int32
deriving DecidableEq, Repr

def Observation.of (pod : PodIdentity) (role : ContainerRole) (s : ContainerStatus) : Observation :=
  let state := s.state.derive
  { pod, name := s.name, role, state, ready := s.ready, restartCount := s.restartCount
    exitCode := if state = .terminated then s.state.terminated.map (·.exitCode) else none }

def PodSnapshot.observations (s : PodSnapshot) : List Observation :=
  s.initStatuses.map (.of s.identity .init) ++ s.statuses.map (.of s.identity .app)

/-- whether a container ended with a code other than zero -/
def Observation.isFailure (o : Observation) : Bool := o.exitCode.any (· != 0)

def firstFailed? (containers : List Observation) : Option Observation :=
  containers.find? (·.isFailure)

end StepRunner
