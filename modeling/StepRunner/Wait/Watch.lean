import StepRunner.Data.Dict
import StepRunner.Log.Warning
import StepRunner.Run.Error

/-!
# Watching the containers of a pod

A watch follows the containers of one pod towards a goal, snapshot by snapshot, and hands out each
container when it is first seen there, at most one per snapshot.

* `Watch`               latest observation of each container, names of the latest snapshot
* `Watch.remaining`     whether there is a container left to wait for
* `Watch.pending`       the containers of the latest snapshot that are not there yet
* `Watch.absorb`        takes a snapshot in; the first container that has reached the goal by it
* `Watch.answer`        what a wait makes of the answer to one look
-/

namespace StepRunner

/-- a watch on the containers of a pod -/
structure Watch where
  pod : PodRef
  goal : Goal
  /-- looks that one wait takes at most -/
  limit : Nat
  /-- latest observation of each container -/
  known : Dict Observation := ∅
  /-- container names of the latest snapshot, init containers first -/
  tracked : List String := []
  /-- whether a snapshot has listed a container -/
  seen : Bool := false
  /-- phase of the latest snapshot -/
  phase : PodPhase := .unknown

namespace Watch

def begin (pod : PodRef) (goal : Goal) (limit : Nat) : Watch := { pod, goal, limit }

/-- whether the container called `name` is not there yet, as far as is known -/
def lacks (w : Watch) (name : String) : Bool :=
  match w.known.get? name with
  | some o => !w.goal.met o
  | none => true

/-- Whether there is a container left to wait for.  Before a snapshot has listed one there is: a pod
that is not scheduled yet lists none. -/
def remaining (w : Watch) : Bool := !w.seen || w.tracked.any w.lacks

def pending (w : Watch) : List Observation :=
  (w.tracked.filterMap w.known.get?).filter fun o => !w.goal.met o

/-! ## taking a snapshot in -/

def isNews (goal : Goal) (known : Dict Observation) (o : Observation) : Bool :=
  match known.get? o.name with
  | some old => goal.differs old o
  | none => true

/-- records observations up to the first that is news and meets the goal -/
def scan (goal : Goal) (known : Dict Observation) :
    List Observation → Dict Observation × Option Observation
  | [] => (known, none)
  | o :: rest =>
    if isNews goal known o && goal.met o then (known.insert o.name o, some o)
    else scan goal (known.insert o.name o) rest

def absorb (w : Watch) (s : PodSnapshot) : Watch × Option Observation :=
  let observations := s.observations
  let (known, found) := scan w.goal w.known observations
  ({ w with
      known
      tracked := observations.map (·.name)
      seen := w.seen || !observations.isEmpty
      phase := s.phase }, found)

/-! ## one look of a wait -/

/-- whether a wait that took `polls` looks has used up its limit -/
def limitReached (polls limit : Nat) : Bool := limit ≤ polls

/-- how a wait ends: with a container that has reached the goal, or not -/
abbrev Outcome := Except RunError Observation

def nothingLeft (w : Watch) : RunError := .nothingToWaitFor w.pod.text

/-- What a wait makes of the answer to one look, `polls` looks having come to nothing before: the
watch after it, how the wait ends if it does, and what is to be warned of. -/
def answer (w : Watch) (polls : Nat) :
    Except ClusterError PodSnapshot → Watch × Option Outcome × List Warning
  | .error source => (w, some (.error (.fetchPod w.pod.text source)), [.fetchFailed])
  | .ok s =>
    match w.absorb s with
    | (w, some o) => (w, some (.ok o), [])
    | (w, none) =>
      if !w.remaining then (w, some (.error w.nothingLeft), [])
      else if w.phase.isTerminal then
        (w, some (.error (.podFinished w.pod.text w.phase w.goal w.pending.length)), [])
      else if limitReached (polls + 1) w.limit then
        (w, some (.error (.pollLimitExceeded w.pod.text w.goal (polls + 1))), [.pollLimitExceeded])
      else (w, none, [])

end Watch

end StepRunner
