import StepRunner.Json.Value
import StepRunner.Pod.Observation

/-!
# Pods as JSON

Each type has a writer `toJson` and a reader `ofJson?`.  A writer names every field; a field without
a value is null.  A reader passes over fields it does not know and takes a missing optional field
for null.
-/

namespace StepRunner

/-! ## specs -/

namespace PodIdentity

def toJson (p : PodIdentity) : Json :=
  .obj [("namespace", .str p.namespaceName), ("uid", .str p.uid), ("name", .str p.name)]

def ofJson? (j : Json) : Option PodIdentity := do
  let o ← j.object?
  let namespaceName ← o.required "namespace" Json.string?
  let uid ← o.required "uid" Json.string?
  let name ← o.required "name" Json.string?
  return { namespaceName, uid, name }

end PodIdentity

namespace ContainerSpec

def toJson (c : ContainerSpec) : Json :=
  .obj [("name", .str c.name), ("image", .str c.image), ("command", .ofList .str c.command),
    ("args", .ofList .str c.args), ("env", .ofDict .str c.env)]

def ofJson? (j : Json) : Option ContainerSpec := do
  let o ← j.object?
  let name ← o.required "name" Json.string?
  let image ← o.required "image" Json.string?
  let command ← o.defaulted "command" [] (Json.list? Json.string?)
  let args ← o.defaulted "args" [] (Json.list? Json.string?)
  let env ← o.defaulted "env" ∅ (Json.dict? Json.string?)
  return { name, image, command, args, env }

end ContainerSpec

namespace PodSpec

def toJson (s : PodSpec) : Json :=
  .obj [("name", .str s.name), ("namespace", .str s.namespaceName),
    ("labels", .ofDict .str s.labels),
    ("init_containers", .ofList ContainerSpec.toJson s.initContainers),
    ("containers", .ofList ContainerSpec.toJson s.containers)]

def ofJson? (j : Json) : Option PodSpec := do
  let o ← j.object?
  let name ← o.required "name" Json.string?
  let namespaceName ← o.required "namespace" Json.string?
  let labels ← o.defaulted "labels" ∅ (Json.dict? Json.string?)
  let initContainers ← o.defaulted "init_containers" [] (Json.list? ContainerSpec.ofJson?)
  let containers ← o.required "containers" (Json.list? ContainerSpec.ofJson?)
  return { name, namespaceName, labels, initContainers, containers }

end PodSpec

/-! ## statuses -/

namespace PodPhase

def toJson (p : PodPhase) : Json := .str p.text

def ofJson? (j : Json) : Option PodPhase := j.string?.bind ofText?

end PodPhase

namespace Instant

def toJson (t : Instant) : Json := .str t.render

def ofJson? (j : Json) : Option Instant := j.string?.bind parse?

end Instant

namespace WaitingInfo

def toJson (w : WaitingInfo) : Json :=
  .obj [("reason", .ofOption .str w.reason), ("message", .ofOption .str w.message)]

def ofJson? (j : Json) : Option WaitingInfo := do
  let o ← j.object?
  let reason ← o.optional "reason" Json.string?
  let message ← o.optional "message" Json.string?
  return { reason, message }

end WaitingInfo

namespace RunningInfo

def toJson (r : RunningInfo) : Json := .obj [("started_at", .ofOption Instant.toJson r.startedAt)]

def ofJson? (j : Json) : Option RunningInfo := do
  let o ← j.object?
  let startedAt ← o.optional "started_at" Instant.ofJson?
  return { startedAt }

end RunningInfo

namespace TerminatedInfo

def toJson (t : TerminatedInfo) : Json :=
  .obj [("exit_code", .int t.exitCode.toInt), ("reason", .ofOption .str t.reason),
    ("finished_at", .ofOption Instant.toJson t.finishedAt)]

def ofJson? (j : Json) : Option TerminatedInfo := do
  let o ← j.object?
  let exitCode ← o.required "exit_code" Json.int32?
  let reason ← o.optional "reason" Json.string?
  let finishedAt ← o.optional "finished_at" Instant.ofJson?
  return { exitCode, reason, finishedAt }

end TerminatedInfo

namespace ReportedState

def toJson (s : ReportedState) : Json :=
  .obj [("waiting", .ofOption WaitingInfo.toJson s.waiting),
    ("running", .ofOption RunningInfo.toJson s.running),
    ("terminated", .ofOption TerminatedInfo.toJson s.terminated)]

def ofJson? (j : Json) : Option ReportedState := do
  let o ← j.object?
  let waiting ← o.optional "waiting" WaitingInfo.ofJson?
  let running ← o.optional "running" RunningInfo.ofJson?
  let terminated ← o.optional "terminated" TerminatedInfo.ofJson?
  return { waiting, running, terminated }

end ReportedState

namespace ContainerStatus

def toJson (s : ContainerStatus) : Json :=
  .obj [("name", .str s.name), ("ready", .bool s.ready),
    ("restart_count", .ofNat s.restartCount.toNat), ("state", s.state.toJson)]

def ofJson? (j : Json) : Option ContainerStatus := do
  let o ← j.object?
  let name ← o.required "name" Json.string?
  let ready ← o.required "ready" Json.bool?
  let restartCount ← o.required "restart_count" Json.uint32?
  let state ← o.required "state" ReportedState.ofJson?
  return { name, ready, restartCount, state }

end ContainerStatus

namespace PodSnapshot

def toJson (s : PodSnapshot) : Json :=
  .obj [("identity", s.identity.toJson), ("phase", s.phase.toJson),
    ("init_container_statuses", .ofList ContainerStatus.toJson s.initStatuses),
    ("container_statuses", .ofList ContainerStatus.toJson s.statuses)]

def ofJson? (j : Json) : Option PodSnapshot := do
  let o ← j.object?
  let identity ← o.required "identity" PodIdentity.ofJson?
  let phase ← o.required "phase" PodPhase.ofJson?
  let initStatuses ← o.required "init_container_statuses" (Json.list? ContainerStatus.ofJson?)
  let statuses ← o.required "container_statuses" (Json.list? ContainerStatus.ofJson?)
  return { identity, phase, initStatuses, statuses }

end PodSnapshot

/-! ## observations -/

namespace ContainerState

def name : ContainerState → String
  | .waiting => "Waiting"
  | .running => "Running"
  | .terminated => "Terminated"
  | .unknown => "Unknown"

def text : ContainerState → String
  | .waiting => "waiting"
  | .running => "running"
  | .terminated => "terminated"
  | .unknown => "unknown"

def toJson (s : ContainerState) : Json := .str s.name

def ofJson? : Json → Option ContainerState
  | .str "Waiting" => some .waiting
  | .str "Running" => some .running
  | .str "Terminated" => some .terminated
  | .str "Unknown" => some .unknown
  | _ => none

end ContainerState

namespace ContainerRole

def toJson : ContainerRole → Json
  | .init => .str "init"
  | .app => .str "app"

def ofJson? : Json → Option ContainerRole
  | .str "init" => some .init
  | .str "app" => some .app
  | _ => none

end ContainerRole

namespace Observation

def toJson (o : Observation) : Json :=
  .obj [("pod", o.pod.toJson), ("name", .str o.name), ("role", o.role.toJson),
    ("state", o.state.toJson), ("ready", .bool o.ready),
    ("restart_count", .ofNat o.restartCount.toNat),
    ("exit_code", .ofOption (fun c : Int32 => .int c.toInt) o.exitCode)]

def ofJson? (j : Json) : Option Observation := do
  let o ← j.object?
  let pod ← o.required "pod" PodIdentity.ofJson?
  let name ← o.required "name" Json.string?
  let role ← o.required "role" ContainerRole.ofJson?
  let state ← o.required "state" ContainerState.ofJson?
  let ready ← o.required "ready" Json.bool?
  let restartCount ← o.required "restart_count" Json.uint32?
  let exitCode ← o.optional "exit_code" Json.int32?
  return { pod, name, role, state, ready, restartCount, exitCode }

end Observation

end StepRunner
