import StepRunner.Run.Crew

/-!
# The run of a stage

* `StepResult`      what became of a step
* `StageResult`     what became of a stage; its steps are in the order of the stage
* `runStep`         the run of one step on its own
* `runStage`        the steps of a stage side by side
-/

namespace StepRunner

/-! ## results -/

structure StepResult where
  name : String
  stepType : String
  error : Option RunError

def StepResult.succeeded (r : StepResult) : Bool := r.error.isNone

structure StageResult where
  name : String
  success : Bool
  steps : List StepResult
  /-- milliseconds from the start of the stage to the end of its last step -/
  duration : Nat

namespace StageResult

def failedSteps (r : StageResult) : List StepResult := r.steps.filter fun s => !s.succeeded

def step? (r : StageResult) (name : String) : Option StepResult := r.steps.find? (·.name = name)

end StageResult

def stageSucceeds (steps : List Bool) : Bool := steps.all id

/-- whole milliseconds, at most what 64 bits hold -/
def durationMs (seconds nanos : Nat) : Nat :=
  min (seconds * 1000 + nanos / 1000000) (UInt64.size - 1)

/-- what became of a run; one that its builder broke off counts as an error -/
def Run.result (r : Run) : StepResult :=
  { name := r.step.name
    stepType := r.step.stepType
    error :=
      if r.isPanicked then some (.stepPanicked r.step.name "the task panicked") else r.error? }

/-! ## runs -/

variable {σ : Type}

/-- the run of one step on its own, `fuel` steps at most -/
def runStep (setup : Setup σ) (fuel : Nat) (step : StepDefinition) (world : World σ) : Crew σ :=
  (Crew.ofRuns [{ step }] world none).finish setup fuel

/-- what became of the stage whose runs are those of `c`, and the world after it -/
def Crew.stageResult (c : Crew σ) (stage : StageDefinition) (start : Nat) : StageResult × World σ :=
  let steps := c.runs.map Run.result
  let panicked := c.runs.filter (·.isPanicked)
  ({ name := stage.name
     success := stageSucceeds (steps.map (·.succeeded))
     steps
     duration := c.world.now - start },
    c.world.warn (panicked.map fun _ => .stepPanicked))

/-- the steps of a stage side by side, `fuel` steps of the machine at most -/
def runStage (setup : Setup σ) (fuel : Nat) (stage : StageDefinition) (world : World σ) :
    StageResult × World σ :=
  let runs := stage.steps.map fun step => { step : Run }
  let crew := (Crew.ofRuns runs world (some setup.config.failurePolicy)).finish setup fuel
  crew.stageResult stage world.now

end StepRunner
