import StepRunner.Log.Stream
import StepRunner.Pod.Status

/-!
# Scripts

What a scripted pod shows, look by look, and what its containers print.

* `Frame`              what one look shows
* `Script`             frames, logs and failures of a pod
* `Script.usual`       everything runs and is ready, then everything has ended well
* `Script.frameAt?`    the frame of a look; the last one repeats
* `Script.reads`       the reads of a container's log stream
-/

namespace StepRunner

structure Frame where
  phase : PodPhase
  initStatuses : List ContainerStatus
  statuses : List ContainerStatus
deriving DecidableEq, Repr

structure Script where
  frames : Array Frame := #[]
  /-- output by container -/
  logs : Dict (List UInt8) := ∅
  /-- containers whose log stream cannot be opened -/
  openFailures : List String := []
  /-- containers whose log stream fails after all output -/
  readFailures : List String := []
  /-- the look that fails, counted from zero -/
  failingFetch : Option Nat := none

namespace Script

def addFrame (s : Script) (frame : Frame) (times : Nat) : Script :=
  { s with frames := s.frames ++ Array.replicate times frame }

def setLog (s : Script) (container : String) (output : List UInt8) : Script :=
  { s with logs := s.logs.insert container output }

def usual (spec : PodSpec) : Script :=
  let initDone := spec.initContainers.map fun c =>
    { ContainerStatus.terminated c.name 0 with ready := true }
  { frames :=
      #[⟨.running, initDone, spec.containers.map fun c => .running c.name true⟩,
        ⟨.succeeded, initDone, spec.containers.map fun c => .terminated c.name 0⟩] }

def frameAt? (s : Script) (index : Nat) : Option Frame := s.frames[index]?.or s.frames.back?

def snapshotAt (s : Script) (identity : PodIdentity) (index : Nat) : PodSnapshot :=
  match s.frameAt? index with
  | some f => ⟨identity, f.phase, f.initStatuses, f.statuses⟩
  | none => ⟨identity, .pending, [], []⟩

/-- how a scripted log stream fails -/
def resetFailure : Log.ReadFailure := ⟨"ConnectionReset", "log stream reset by peer"⟩

def reads (s : Script) (container : String) : List Log.Read :=
  Log.chunks Log.bufferSize ((s.logs.get? container).getD []) ++
    if container ∈ s.readFailures then [.failure resetFailure] else []

end Script

end StepRunner
