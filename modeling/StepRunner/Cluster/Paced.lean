import StepRunner.Cluster.Scripted

/-!
# A scripted cluster that takes its time

* `Pace`                how long the calls on a pod take, and which log openings break off
* `PacedCluster`        a scripted cluster with a pace for each pod
* `pacedPlatform`       the platform that it is
-/

namespace StepRunner

structure Pace where
  create : Nat := 0
  fetch : Nat := 0
  openLogs : Nat := 0
  delete : Nat := 0
  /-- containers whose log opening breaks off its task -/
  panics : List String := []
deriving Inhabited

def Pace.delay (p : Pace) : Call → Nat
  | .create => p.create
  | .fetch => p.fetch
  | .openLogs => p.openLogs
  | .delete => p.delete

structure PacedCluster where
  cluster : ScriptedCluster := {}
  paces : Dict Pace := ∅

namespace PacedCluster

def pace (c : PacedCluster) (name : String) : Pace := (c.paces.get? name).getD {}

/-- the answer of the cluster, and the cluster after it -/
def lift {α : Type} (c : PacedCluster) (answer : α × ScriptedCluster) : α × PacedCluster :=
  (answer.1, { c with cluster := answer.2 })

def openLogs (pod : PodRef) (container : String) (c : PacedCluster) : LogOpening × PacedCluster :=
  (if container ∈ (c.pace pod.name).panics then .panicked else c.cluster.openLogs pod container, c)

end PacedCluster

def pacedPlatform : Platform PacedCluster where
  create spec c := c.lift (c.cluster.create spec)
  fetch pod c := c.lift (c.cluster.fetch pod)
  openLogs := PacedCluster.openLogs
  delete pod c := c.lift (c.cluster.delete pod)
  delay call pod c := (c.pace pod.name).delay call

/-! ## calls -/

variable {c : PacedCluster} {cluster : ScriptedCluster} {spec : PodSpec} {pod : PodRef}

theorem pacedPlatform_create {answer : Except ClusterError (Option PodIdentity)}
    (h : c.cluster.create spec = (answer, cluster)) :
    pacedPlatform.create spec c = (answer, { c with cluster }) := by
  show c.lift (c.cluster.create spec) = _
  rw [h]
  rfl

theorem pacedPlatform_delete {answer : Except ClusterError Unit}
    (h : c.cluster.delete pod = (answer, cluster)) :
    pacedPlatform.delete pod c = (answer, { c with cluster }) := by
  show c.lift (c.cluster.delete pod) = _
  rw [h]
  rfl

end StepRunner
