import StepRunner.Log.Stream
import StepRunner.Pod.Error
import StepRunner.Pod.Status

/-!
# Platforms

A platform is where pods run.  It answers four calls, each of which may fail and may take its time;
what it answers may depend on all calls before, through a state of its own.

* `Call`            the four calls
* `LogOpening`      what opening a log stream comes to
* `Platform σ`      the answers of a platform with states `σ`, and how long they take
-/

namespace StepRunner

inductive Call where
  | create
  | fetch
  | openLogs
  | delete
deriving DecidableEq, Repr

inductive LogOpening where
  | stream (s : Log.Stream)
  | failed (e : ClusterError)
  /-- the opening breaks off its own task -/
  | panicked

/-- where pods run, `σ` being all that its answers depend on -/
structure Platform (σ : Type) where
  /-- submits a pod; a platform may accept one without telling its identity -/
  create : PodSpec → σ → Except ClusterError (Option PodIdentity) × σ
  /-- looks at a pod -/
  fetch : PodRef → σ → Except ClusterError PodSnapshot × σ
  /-- opens the log stream of a container -/
  openLogs : PodRef → (container : String) → σ → LogOpening × σ
  /-- deletes a pod -/
  delete : PodRef → σ → Except ClusterError Unit × σ
  /-- milliseconds that a call on a pod takes before it has its effect -/
  delay : Call → PodRef → σ → Nat

end StepRunner
