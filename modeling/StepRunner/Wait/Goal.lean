import StepRunner.Pod.Observation

/-!
# What a wait is for

* `Goal`           containers being ready, or being done
* `Goal.met`       whether a container is there
* `Goal.differs`   whether two observations differ in what the goal looks at
-/

namespace StepRunner

inductive Goal where
  | ready
  | done
deriving DecidableEq, Repr

namespace Goal

def text : Goal → String
  | .ready => "ready"
  | .done => "done"

/-- whether a container is there: it reports ready, or it has terminated -/
def met : Goal → Observation → Bool
  | .ready, o => o.ready
  | .done, o => o.state = .terminated

/-- whether two observations differ in what the goal looks at: the ready flag, or the state -/
def differs : Goal → Observation → Observation → Bool
  | .ready, old, new => old.ready != new.ready
  | .done, old, new => old.state != new.state

end Goal

end StepRunner
