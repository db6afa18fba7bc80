/-!
# Warnings

What a run reports beside its results.
-/

namespace StepRunner

inductive Warning where
  | lineTruncated
  | logReadFailed
  | logTaskFailed
  | logTaskPanicked
  | logTasksAlsoFailed
  | fetchFailed
  | pollLimitExceeded
  | noPodReturned
  | deleteFailed
  | stepFailed
  | stepPanicked
deriving DecidableEq, Repr

def Warning.text : Warning → String
  | .lineTruncated => "log line exceeded maximum length, truncated"
  | .logReadFailed => "log stream read failed"
  | .logTaskFailed => "container log task failed"
  | .logTaskPanicked => "container log task panicked"
  | .logTasksAlsoFailed => "log tasks also failed"
  | .fetchFailed => "pod status fetch failed"
  | .pollLimitExceeded => "container wait exceeded poll limit"
  | .noPodReturned => "platform returned no pod, continuing with an empty identity"
  | .deleteFailed => "failed to delete pod"
  | .stepFailed => "step failed"
  | .stepPanicked => "step task panicked"

end StepRunner
