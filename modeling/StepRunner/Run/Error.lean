import StepRunner.Log.Stream
import StepRunner.Pod.Error
import StepRunner.Wait.Goal

/-!
# Errors of a run

A pod is named in an error by its namespace and name with a slash between them.

* `RunError`          why a step, or a part of one, did not succeed
* `RunError.text`     its wording
-/

namespace StepRunner

inductive RunError where
  | buildPodSpec (step reason : String)
  | createPod (pod : String) (source : ClusterError)
  | fetchPod (pod : String) (source : ClusterError)
  | deletePod (pod : String) (source : ClusterError)
  /-- every container has reached the goal already -/
  | nothingToWaitFor (pod : String)
  | pollLimitExceeded (pod : String) (goal : Goal) (polls : Nat)
  /-- the pod came to its end with containers that never reached the goal -/
  | podFinished (pod : String) (phase : PodPhase) (goal : Goal) (pending : Nat)
  | openLogStream (pod container : String) (source : ClusterError)
  | readLogStream (pod container : String) (lines : Nat) (source : Log.ReadFailure)
  | logTaskPanicked (pod reason : String)
  /-- the failures of a pod's log tasks, joined -/
  | logStreaming (errors : List RunError)
  | containerFailed (pod container : String) (exitCode : Int32)
  | podFailed (pod : String)
  | stepPanicked (step reason : String)
  | cancelled (step : String)
  | invalidConfig (reason : String)

namespace RunError

mutual

def text : RunError → String
  | .buildPodSpec step reason => "failed to build pod spec for step '" ++ step ++ "': " ++ reason
  | .createPod pod source => "failed to create pod " ++ pod ++ ": " ++ source.text
  | .fetchPod pod source => "failed to fetch status of pod " ++ pod ++ ": " ++ source.text
  | .deletePod pod source => "failed to delete pod " ++ pod ++ ": " ++ source.text
  | .nothingToWaitFor pod => "nothing left to wait for in pod " ++ pod
  | .pollLimitExceeded pod goal polls =>
    "pod " ++ pod ++ ": no container reached " ++ goal.text ++ " status after " ++ toString polls ++
      " polls"
  | .podFinished pod phase goal pending =>
    "pod " ++ pod ++ " finished in phase " ++ phase.text ++ " with " ++ toString pending ++
      " container(s) never " ++ goal.text
  | .openLogStream pod container source =>
    "failed to open log stream of " ++ pod ++ "/" ++ container ++ ": " ++ source.text
  | .readLogStream pod container lines source =>
    "failed to read log stream of " ++ pod ++ "/" ++ container ++ " after " ++ toString lines ++
      " line(s): " ++ source.message
  | .logTaskPanicked pod reason => "log task for pod " ++ pod ++ " panicked: " ++ reason
  | .logStreaming errors =>
    "log streaming failed for " ++ toString errors.length ++ " task(s): " ++ joined errors
  | .containerFailed pod container exitCode =>
    "container " ++ pod ++ "/" ++ container ++ " exited with code " ++ toString exitCode.toInt
  | .podFailed pod => "pod " ++ pod ++ " failed"
  | .stepPanicked step reason => "step '" ++ step ++ "' panicked: " ++ reason
  | .cancelled step => "step '" ++ step ++ "' was cancelled"
  | .invalidConfig reason => "invalid engine config: " ++ reason

/-- the wordings of errors with semicolons between them -/
def joined : List RunError → String
  | [] => ""
  | [e] => text e
  | e :: rest => text e ++ "; " ++ joined rest

end

def isCancelled : RunError → Bool
  | .cancelled _ => true
  | _ => false

end RunError

end StepRunner
