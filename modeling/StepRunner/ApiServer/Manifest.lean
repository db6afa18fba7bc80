import StepRunner.Json.Value
import StepRunner.Pod.Spec

/-!
# Pod manifests

A pod spec in the form in which an API server takes it.  An empty collection is left out, and an
environment is a list of named values.

* `Manifest`            a pod as it is submitted
* `Manifest.ofSpec`     the manifest of a spec
* `Manifest.toSpec`     the spec that a manifest was made from
* `Manifest.toJson`     the body of the request
-/

namespace StepRunner.ApiServer

structure EnvVar where
  name : String
  value : String
deriving DecidableEq

structure Container where
  name : String
  image : String
  command : Option (List String) := none
  args : Option (List String) := none
  env : Option (List EnvVar) := none
deriving DecidableEq

structure Manifest where
  name : String
  namespaceName : String
  labels : Option (List (String × String)) := none
  restartPolicy : String
  initContainers : Option (List Container) := none
  containers : List Container
deriving DecidableEq

/-! ## from and to a spec -/

/-- a list, left out where it is empty -/
def unlessEmpty {α : Type} (l : List α) : Option (List α) := if l.isEmpty then none else some l

def Container.ofSpec (c : ContainerSpec) : Container :=
  { name := c.name
    image := c.image
    command := unlessEmpty c.command
    args := unlessEmpty c.args
    env := unlessEmpty (c.env.entries.map fun e => ⟨e.1, e.2⟩) }

def Container.toSpec (c : Container) : ContainerSpec :=
  { name := c.name
    image := c.image
    command := c.command.getD []
    args := c.args.getD []
    env := Dict.ofList ((c.env.getD []).map fun v => (v.name, v.value)) }

namespace Manifest

/-- the manifest of a spec; its containers are never restarted -/
def ofSpec (s : PodSpec) : Manifest :=
  { name := s.name
    namespaceName := s.namespaceName
    labels := unlessEmpty s.labels.entries
    restartPolicy := "Never"
    initContainers := unlessEmpty (s.initContainers.map .ofSpec)
    containers := s.containers.map .ofSpec }

def toSpec (m : Manifest) : PodSpec :=
  { name := m.name
    namespaceName := m.namespaceName
    labels := Dict.ofList (m.labels.getD [])
    initContainers := (m.initContainers.getD []).map (·.toSpec)
    containers := m.containers.map (·.toSpec) }

/-! ## as JSON -/

/-- a member that is left out where it has no value -/
def member {α : Type} (name : String) (write : α → Json) : Option α → List (String × Json)
  | none => []
  | some a => [(name, write a)]

def envJson (v : EnvVar) : Json := .obj [("name", .str v.name), ("value", .str v.value)]

def containerJson (c : Container) : Json :=
  .obj ([("name", .str c.name), ("image", .str c.image)] ++
    member "command" (.ofList .str) c.command ++ member "args" (.ofList .str) c.args ++
    member "env" (.ofList envJson) c.env)

def labelsJson (l : List (String × String)) : Json := .obj (l.map fun e => (e.1, .str e.2))

def toJson (m : Manifest) : Json :=
  let metadata := [("name", Json.str m.name), ("namespace", .str m.namespaceName)] ++
    member "labels" labelsJson m.labels
  let spec := member "initContainers" (.ofList containerJson) m.initContainers ++
    [("containers", .ofList containerJson m.containers), ("restartPolicy", .str m.restartPolicy)]
  .obj [("apiVersion", .str "v1"), ("kind", .str "Pod"), ("metadata", .obj metadata),
    ("spec", .obj spec)]

end Manifest

end StepRunner.ApiServer
