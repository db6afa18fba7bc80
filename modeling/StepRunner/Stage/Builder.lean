import StepRunner.Limits
import StepRunner.Stage.Definition
import StepRunner.Stage.Naming

/-!
# The pod of a step

* `buildPod`    the pod spec of a step, refused for a step without an image
-/

namespace StepRunner

def noImage (step : StepDefinition) : String := "step '" ++ step.name ++ "' has no image"

def stepContainer (step : StepDefinition) : ContainerSpec :=
  let shell := !step.commands.isEmpty
  { name := Limits.stepContainer
    image := step.image
    command := if shell then ["/bin/sh", "-c"] else []
    args := if shell then [String.intercalate "\n" step.commands] else []
    env := step.env }

def stepLabels (stage step : String) (build : UInt64) : Dict String :=
  Dict.ofList
    [("podline/build", toString build.toNat),
     ("podline/stage", labelValue stage),
     ("podline/step", labelValue step)]

/-- The pod spec of a step: one container, no init containers, labels that say what it belongs to.
A step without an image is refused. -/
def buildPod (namespaceName : String) (stage : StageDefinition) (step : StepDefinition)
    (build : UInt64) : Except String PodSpec :=
  if step.image = "" then .error (noImage step)
  else .ok
    { name := podName stage.name step.name build
      namespaceName
      labels := stepLabels stage.name step.name build
      containers := [stepContainer step] }

end StepRunner
