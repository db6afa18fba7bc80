import StepRunner.Run.Config

/-!
# The verdict on a finished pod

* `FinishedPod`           what the wait for the end of a pod has seen
* `FinishedPod.note`      records a container that has terminated
* `FinishedPod.verdict?`  the error that the pod's end means for its step, if any
-/

namespace StepRunner

structure FinishedPod where
  phase : PodPhase
  /-- terminated containers, each once, in the order in which they were first seen terminated -/
  containers : List Observation
  /-- containers that had not terminated when the pod came to its end -/
  unfinished : List Observation
deriving DecidableEq, Repr

/-- records a container: in the place of the same container, or else at the end -/
def noteContainer (o : Observation) : List Observation → List Observation
  | [] => [o]
  | old :: rest => if old.name = o.name then o :: rest else old :: noteContainer o rest

namespace FinishedPod

/-- the error that exit codes and phase mean, if any -/
def exitError? (pod : String) (f : FinishedPod) : Option RunError :=
  match firstFailed? f.containers with
  | some o => some (.containerFailed pod o.name (o.exitCode.getD 0))
  | none => if f.phase = .failed then some (.podFailed pod) else none

/-- the error that containers left behind mean, if any -/
def leftError? (pod : String) (f : FinishedPod) : Option RunError :=
  if f.unfinished.isEmpty then none
  else some (.podFinished pod f.phase .done f.unfinished.length)

/-- the error that the pod's end means for its step, if any; exit codes count first, where they are
to be checked -/
def verdict? (checkExitCodes : Bool) (pod : String) (f : FinishedPod) : Option RunError :=
  if checkExitCodes then (f.exitError? pod).or (f.leftError? pod) else f.leftError? pod

end FinishedPod

end StepRunner
