import StepRunner.Data.Dict

/-!
# Stages and steps

* `StepDefinition`    one step: an image, commands for its shell, an environment
* `StageDefinition`   a named list of steps that run side by side
-/

namespace StepRunner

structure StepDefinition where
  name : String
  /-- what kind of step the caller takes it for -/
  stepType : String := ""
  image : String
  commands : List String := []
  env : Dict String := ∅
deriving DecidableEq

namespace StepDefinition

def withCommands (s : StepDefinition) (commands : List String) : StepDefinition :=
  { s with commands }

def withEnv (s : StepDefinition) (name value : String) : StepDefinition :=
  { s with env := s.env.insert name value }

end StepDefinition

structure StageDefinition where
  name : String
  steps : List StepDefinition
deriving DecidableEq

end StepRunner
