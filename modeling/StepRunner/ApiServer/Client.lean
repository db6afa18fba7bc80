import StepRunner.ApiServer.PodShape
import StepRunner.ApiServer.Request
import StepRunner.Pod.Error

/-!
# The four calls on an API server

Each call is one request and one response.  A response with a status of 400 to 599 is an error: the
one its body tells, or, where the body tells none, the one of its status.

* `Response`         status and body
* `Failure`          why a call did not come to its answer
* `Failure.error`    the platform error that it means
* `create`, `fetch`, `openLogs`, `delete`   a call, given how the server responds
-/

namespace StepRunner.ApiServer

structure Response where
  status : Nat
  body : List UInt8

inductive Failure where
  /-- the server has answered with an error -/
  | server (code : Nat) (message : String)
  /-- the request cannot be made -/
  | request
  /-- the body is not UTF-8 -/
  | encoding
  /-- the body is not what it should be -/
  | content

namespace Failure

def text : Failure → String
  | .server code message => "server error " ++ toString code ++ ": " ++ message
  | .request => "the request cannot be made"
  | .encoding => "the response is not UTF-8"
  | .content => "the response cannot be read"

/-- The platform error that a failure of `operation` means: of the codes, 404 and 409 have errors of
their own. -/
def error (operation : String) (pod : PodRef) (f : Failure) : ClusterError :=
  match f with
  | .server 404 _ => .podNotFound pod
  | .server 409 _ => .podAlreadyExists pod
  | f => .api operation pod.text f.text

end Failure

/-! ## reading responses -/

/-- the shape of an error body -/
def errorShape : Shape :=
  .once (("code", .uint16) :: Shape.fieldsOf .text ["message", "reason", "status"])

/-- the code and message that an error body tells; status and code must be there -/
def errorBody? (text : String) : Option (Nat × String) := do
  let o ← (← Json.parseAs? errorShape text).object?
  let _ ← o.required "status" Json.string?
  let message ← o.defaulted "message" "" Json.string?
  let code ← o.required "code" (Json.below? UInt16.size)
  return (code, message)

/-- the failure that an error response tells -/
def failureOf (r : Response) : Failure :=
  match Text.Utf8.decode? r.body with
  | none => .encoding
  | some text =>
    match errorBody? text with
    | some (code, message) => .server code message
    | none => .server r.status text

def Response.isError (r : Response) : Bool := 400 ≤ r.status && r.status < 600

def Response.text (r : Response) : Except Failure String :=
  if r.isError then .error (failureOf r)
  else match Text.Utf8.decode? r.body with
    | none => .error .encoding
    | some text => .ok text

def state? (j : Json) : Option ReportedState := do
  let o ← j.object?
  let waiting ← o.optional "waiting" fun j => do
    let o ← j.object?
    let reason ← o.optional "reason" Json.string?
    let message ← o.optional "message" Json.string?
    return { reason, message : WaitingInfo }
  let running ← o.optional "running" fun j => do
    let o ← j.object?
    let startedAt ← o.optional "startedAt" Instant.ofJson?
    return { startedAt : RunningInfo }
  let terminated ← o.optional "terminated" fun j => do
    let o ← j.object?
    let exitCode ← o.optional "exitCode" Json.int32?
    let reason ← o.optional "reason" Json.string?
    let finishedAt ← o.optional "finishedAt" Instant.ofJson?
    return { exitCode := exitCode.getD 0, reason, finishedAt : TerminatedInfo }
  return { waiting, running, terminated }

/-- a count of restarts; a negative one is none -/
def restarts (n : Int32) : UInt32 := n.toInt.toNat.toUInt32

def status? (j : Json) : Option ContainerStatus := do
  let o ← j.object?
  let name ← o.optional "name" Json.string?
  let ready ← o.optional "ready" Json.bool?
  let restartCount ← o.optional "restartCount" Json.int32?
  let state ← o.optional "state" state?
  return ⟨name.getD "", ready.getD false, restarts (restartCount.getD 0), state.getD {}⟩

/-- what the metadata of a pod tell of its identity -/
def identity? (j : Json) : Option PodIdentity := do
  let o ← j.object?
  let namespaceName ← o.optional "namespace" Json.string?
  let uid ← o.optional "uid" Json.string?
  let name ← o.optional "name" Json.string?
  return ⟨namespaceName.getD "", uid.getD "", name.getD ""⟩

/-- phase and container statuses, init containers first -/
def reported? (j : Json) : Option (PodPhase × List ContainerStatus × List ContainerStatus) := do
  let o ← j.object?
  let phase ← o.optional "phase" Json.string?
  let initStatuses ← o.optional "initContainerStatuses" (Json.list? status?)
  let statuses ← o.optional "containerStatuses" (Json.list? status?)
  return ((phase.map PodPhase.ofText).getD .unknown, initStatuses.getD [], statuses.getD [])

/-- the pod that a value of the shape of a pod tells of -/
def snapshot? (j : Json) : Option PodSnapshot := do
  let o ← j.object?
  let identity ← o.optional "metadata" identity?
  let reported ← o.optional "status" reported?
  let (phase, initStatuses, statuses) := reported.getD (.unknown, [], [])
  return ⟨identity.getD {}, phase, initStatuses, statuses⟩

def pod? (text : String) : Option PodSnapshot := (Json.parseAs? podShape text).bind snapshot?

def podOf (r : Response) : Except Failure PodSnapshot :=
  match r.text with
  | .error f => .error f
  | .ok text =>
    match pod? text with
    | some s => .ok s
    | none => .error .content

/-! ## deletions -/

def detailsShape : Shape :=
  .once (Shape.fieldsOf .text ["group", "kind", "name", "uid"] ++
    [("causes", .list (.once (Shape.fieldsOf .text ["field", "message", "reason"]))),
     ("retryAfterSeconds", .uint32)])

/-- a report on a deletion -/
def reportShape : Shape :=
  .once (Shape.fieldsOf .text ["message", "reason"] ++
    [("code", .uint16), ("details", .optional detailsShape),
     ("status", .optional (.oneOf ["Failure", "Success"]))])

/-- the shape of a body that answers a deletion: of a report, if that is its kind, or else of the
deleted pod -/
def deletionShape (j : Json) : Shape :=
  match j.object?.bind (·.get? "kind") with
  | some (.str "Status") => reportShape
  | _ => podShape

/-- Whether a body answers a deletion.  It is read as a whole before its shape is looked at. -/
def answersDeletion (text : String) : Bool :=
  match Json.parse? text with
  | none => false
  | some j => (Json.parseAs? (deletionShape j) text).isSome

/-! ## the four calls -/

/-- the error of a call that has failed, or its answer -/
def answer {α : Type} (operation : String) (pod : PodRef) : Except Failure α → Except ClusterError α
  | .ok a => .ok a
  | .error f => .error (f.error operation pod)

/-- Submits a pod.  A server may accept it without telling its identity. -/
def create (spec : PodSpec) (respond : Request → Response) :
    Except ClusterError (Option PodIdentity) :=
  match spec.refusal? with
  | some e => .error e
  | none =>
    answer "create" spec.ref <|
      match createRequest? spec with
      | none => .error .request
      | some request =>
        (podOf (respond request)).map fun s => if s.identity.isEmpty then none else some s.identity

def fetch (pod : PodRef) (respond : Request → Response) : Except ClusterError PodSnapshot :=
  answer "get" pod <|
    match fetchRequest? pod with
    | none => .error .request
    | some request => podOf (respond request)

def openLogs (pod : PodRef) (container : String) (respond : Request → Response) :
    Except ClusterError (List UInt8) :=
  answer "logs" pod <|
    match logRequest? pod container with
    | none => .error .request
    | some request =>
      let r := respond request
      if r.isError then .error (failureOf r) else .ok r.body

def delete (pod : PodRef) (respond : Request → Response) : Except ClusterError Unit :=
  answer "delete" pod <|
    match deleteRequest? pod with
    | none => .error .request
    | some request =>
      match (respond request).text with
      | .error f => .error f
      | .ok text => if answersDeletion text then .ok () else .error .content

end StepRunner.ApiServer
