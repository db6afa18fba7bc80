import StepRunner.Pod.Spec

/-!
# Errors of a platform

* `ClusterError`          why a call to a platform failed
* `ClusterError.text`     its wording
-/

namespace StepRunner

inductive ClusterError where
  | podNotFound (pod : PodRef)
  | podAlreadyExists (pod : PodRef)
  | invalidPodSpec (name reason : String)
  /-- any other failure of `operation` on `target` -/
  | api (operation target reason : String)
deriving DecidableEq, Repr

namespace ClusterError

def text : ClusterError → String
  | .podNotFound pod => "pod " ++ pod.text ++ " not found"
  | .podAlreadyExists pod => "pod " ++ pod.text ++ " already exists"
  | .invalidPodSpec name reason => "invalid pod spec '" ++ name ++ "': " ++ reason
  | .api operation target reason =>
    "cluster " ++ operation ++ " failed for " ++ target ++ ": " ++ reason

def isNotFound : ClusterError → Bool
  | .podNotFound _ => true
  | _ => false

end ClusterError

/-- the error that a spec is refused with, if it has a fault -/
def PodSpec.refusal? (s : PodSpec) : Option ClusterError :=
  s.fault?.map fun f => .invalidPodSpec s.name f.text

end StepRunner
