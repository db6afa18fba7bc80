import StepRunner.Data.Dict

/-!
# Pods: what is asked for

* `PodRef`             namespace and name of a pod
* `PodIdentity`        what a platform knows a pod by
* `ContainerSpec`      one container: image, command, environment
* `PodSpec`            a pod: init containers, which run first, and app containers
* `PodSpec.fault?`     the first reason why a pod spec cannot be submitted
* `isLabelValue`       the values that a label may have
-/

namespace StepRunner

/-! ## naming a pod -/

structure PodRef where
  namespaceName : String
  name : String
deriving DecidableEq, Repr

def PodRef.text (p : PodRef) : String := p.namespaceName ++ "/" ++ p.name

/-- what a platform knows a pod by; an identity without a name stands for no pod -/
structure PodIdentity where
  namespaceName : String := ""
  uid : String := ""
  name : String := ""
deriving DecidableEq, Repr, Inhabited

namespace PodIdentity

def ref (p : PodIdentity) : PodRef := ⟨p.namespaceName, p.name⟩

def isEmpty (p : PodIdentity) : Bool := p.name = ""

end PodIdentity

/-! ## specs -/

structure ContainerSpec where
  name : String
  image : String
  command : List String := []
  args : List String := []
  env : Dict String := ∅
deriving DecidableEq

structure PodSpec where
  name : String
  namespaceName : String
  labels : Dict String := ∅
  /-- these run first, one after the other -/
  initContainers : List ContainerSpec := []
  containers : List ContainerSpec
deriving DecidableEq

namespace PodSpec

def ref (s : PodSpec) : PodRef := ⟨s.namespaceName, s.name⟩

def allContainers (s : PodSpec) : List ContainerSpec := s.initContainers ++ s.containers

end PodSpec

/-! ## label values -/

def isAlnum (c : Char) : Bool :=
  ('a' ≤ c && c ≤ 'z') || ('A' ≤ c && c ≤ 'Z') || ('0' ≤ c && c ≤ '9')

/-- an ASCII letter or digit, or one of `.`, `_`, `-` -/
def isLabelChar (c : Char) : Bool := isAlnum c || c = '.' || c = '_' || c = '-'

/-- the longest name of one part of a domain, and the longest label value -/
def maxLabelLength : Nat := 63

/-- Nothing, or at most 63 characters out of letters, digits, `.`, `_` and `-` with a letter or
digit at both ends. -/
def isLabelValue (s : String) : Bool :=
  let cs := s.toList
  cs.isEmpty ||
    (cs.length ≤ maxLabelLength && cs.all isLabelChar &&
      cs.head?.any isAlnum && cs.getLast?.any isAlnum)

/-! ## faults -/

inductive SpecFault where
  | emptyName
  | emptyNamespace
  | noContainer
  | emptyContainerName
  | duplicateContainer (name : String)
  | badLabel (key value : String)
deriving DecidableEq, Repr

def SpecFault.text : SpecFault → String
  | .emptyName => "pod name cannot be empty"
  | .emptyNamespace => "namespace cannot be empty"
  | .noContainer => "at least one app container is required"
  | .emptyContainerName => "container name cannot be empty"
  | .duplicateContainer name => "duplicate container name '" ++ name ++ "'"
  | .badLabel key value => "label '" ++ key ++ "' has invalid value '" ++ value ++ "'"

namespace PodSpec

/-- the first fault among container names, `seen` being the names before them -/
def nameFault? (seen : List String) : List String → Option SpecFault
  | [] => none
  | name :: rest =>
    if name = "" then some .emptyContainerName
    else if name ∈ seen then some (.duplicateContainer name)
    else nameFault? (name :: seen) rest

def labelFault? : List (String × String) → Option SpecFault
  | [] => none
  | (key, value) :: rest =>
    if isLabelValue value then labelFault? rest else some (.badLabel key value)

/-- The first reason why the spec cannot be submitted: its name, its namespace, its app containers,
the names of all containers in order, its labels in key order. -/
def fault? (s : PodSpec) : Option SpecFault :=
  if s.name = "" then some .emptyName
  else if s.namespaceName = "" then some .emptyNamespace
  else if s.containers.isEmpty then some .noContainer
  else (nameFault? [] (s.allContainers.map (·.name))).or (labelFault? s.labels.entries)

end PodSpec

end StepRunner
