/-!
# Log lines

* `LogLine`     what a run sends to the reader of its logs
-/

namespace StepRunner

/-- what a log line is -/
inductive LogLineKind where
  /-- a notice that a container is ready -/
  | containerReady
  /-- a line of a container's output -/
  | output
deriving DecidableEq, Repr

structure LogLine where
  step : String
  container : String
  kind : LogLineKind
  content : String
deriving DecidableEq, Repr

namespace LogLine

def containerReady (step container : String) : LogLine :=
  ⟨step, container, .containerReady, "container '" ++ container ++ "' is ready"⟩

def output (step container content : String) : LogLine := ⟨step, container, .output, content⟩

end LogLine

end StepRunner
