import StepRunner.Cluster.Platform
import StepRunner.Cluster.Script

/-!
# The scripted cluster

A platform in memory.  Pods are known by name, and a call on a pod must give its namespace too.  A
pod follows the script registered under its name when it is created, or the usual one.

* `LivePod`                 a pod that was created and not deleted
* `ScriptedCluster`         live pods, registered scripts and failures, and what has happened
* `ScriptedCluster.create`, `fetch`, `openLogs`, `delete`   the calls
-/

namespace StepRunner

structure LivePod where
  identity : PodIdentity
  script : Script
  /-- looks taken so far -/
  fetches : Nat := 0

structure ScriptedCluster where
  /-- live pods by name -/
  pods : Dict LivePod := ∅
  /-- scripts for pods that are yet to be created, by name -/
  scripts : Dict Script := ∅
  createFailures : List String := []
  deleteFailures : List String := []
  /-- pods whose creation does not tell their identity -/
  omitted : List String := []
  /-- in the order of creation -/
  created : List PodIdentity := []
  /-- in the order of deletion -/
  deleted : List PodIdentity := []
  /-- looks asked for, by name, whether there was such a pod or not -/
  fetchCounts : Dict Nat := ∅
  lastUid : Nat := 0

namespace ScriptedCluster

/-! ## arrangements -/

/-- the next pod called `name` follows `script` -/
def setScript (c : ScriptedCluster) (name : String) (script : Script) : ScriptedCluster :=
  { c with scripts := c.scripts.insert name script }

def failCreate (c : ScriptedCluster) (name : String) : ScriptedCluster :=
  { c with createFailures := name :: c.createFailures }

def failDelete (c : ScriptedCluster) (name : String) : ScriptedCluster :=
  { c with deleteFailures := name :: c.deleteFailures }

/-- creating a pod called `name` does not tell its identity -/
def omitPod (c : ScriptedCluster) (name : String) : ScriptedCluster :=
  { c with omitted := name :: c.omitted }

/-! ## calls -/

/-- an arranged failure -/
def injected (operation target : String) : ClusterError := .api operation target "injected failure"

/-- the identifier of the pod created as number `n` -/
def uidText (n : Nat) : String :=
  let digits := Nat.toDigits 10 n
  "uid-" ++ String.ofList (List.replicate (4 - digits.length) '0' ++ digits)

def lookup? (c : ScriptedCluster) (pod : PodRef) : Option LivePod :=
  match c.pods.get? pod.name with
  | some live => if live.identity.namespaceName = pod.namespaceName then some live else none
  | none => none

/-- looks asked for under a name -/
def fetchCount (c : ScriptedCluster) (name : String) : Nat := (c.fetchCounts.get? name).getD 0

/-- the cluster with the pod of an accepted spec -/
def admitPod (c : ScriptedCluster) (spec : PodSpec) : PodIdentity × ScriptedCluster :=
  let identity : PodIdentity := ⟨spec.namespaceName, uidText (c.lastUid + 1), spec.name⟩
  let script := (c.scripts.get? spec.name).getD (.usual spec)
  (identity,
    { c with
      pods := c.pods.insert spec.name { identity, script }
      scripts := c.scripts.erase spec.name
      created := c.created ++ [identity]
      lastUid := c.lastUid + 1 })

def create (spec : PodSpec) (c : ScriptedCluster) :
    Except ClusterError (Option PodIdentity) × ScriptedCluster :=
  match spec.refusal? with
  | some e => (.error e, c)
  | none =>
    if spec.name ∈ c.createFailures then (.error (injected "create" spec.ref.text), c)
    else if c.pods.contains spec.name then (.error (.podAlreadyExists spec.ref), c)
    else
      let (identity, c') := c.admitPod spec
      (.ok (if spec.name ∈ c.omitted then none else some identity), c')

/-- Looks at a pod.  Every look counts under the name, but only one that finds the pod moves it to
its next frame; a failing look moves it too. -/
def fetch (pod : PodRef) (c : ScriptedCluster) :
    Except ClusterError PodSnapshot × ScriptedCluster :=
  let c := { c with fetchCounts := c.fetchCounts.insert pod.name (c.fetchCount pod.name + 1) }
  match c.lookup? pod with
  | none => (.error (.podNotFound pod), c)
  | some live =>
    let c := { c with pods := c.pods.insert pod.name { live with fetches := live.fetches + 1 } }
    if live.script.failingFetch = some live.fetches then
      (.error (injected "get" live.identity.ref.text), c)
    else (.ok (live.script.snapshotAt live.identity live.fetches), c)

def openLogs (pod : PodRef) (container : String) (c : ScriptedCluster) : LogOpening :=
  match c.lookup? pod with
  | none => .failed (.podNotFound pod)
  | some live =>
    if container ∈ live.script.openFailures then
      .failed (injected "logs" (live.identity.ref.text ++ "/" ++ container))
    else .stream (.ofReads (live.script.reads container))

def delete (pod : PodRef) (c : ScriptedCluster) : Except ClusterError Unit × ScriptedCluster :=
  if pod.name ∈ c.deleteFailures then (.error (injected "delete" pod.text), c)
  else match c.lookup? pod with
    | none => (.error (.podNotFound pod), c)
    | some live =>
      (.ok (), { c with pods := c.pods.erase pod.name, deleted := c.deleted ++ [live.identity] })

end ScriptedCluster

end StepRunner
