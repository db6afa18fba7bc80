import StepRunner.Json.Shape
import StepRunner.Serial.Pod

/-!
# The shape of a pod

An API server's pod has many fields that nobody here reads, but a pod in which one of them has the
wrong type is refused all the same.  The tables follow the pod of version 1.32 of the API: each
record lists its fields, those of one type together.

* `metadataShape`     the metadata of an object
* `podSpecShape`      what was asked for
* `podStatusShape`    what has become of it
* `podShape`          a pod
-/

namespace StepRunner.ApiServer

open Shape

/-- an instant in the notation of RFC 3339 -/
def instantShape : Shape := .passing fun j => (Instant.ofJson? j).isSome

/-! ## metadata -/

def ownerShape : Shape :=
  .record (fieldsOf .text ["apiVersion", "kind", "name", "uid"] ++
    fieldsOf .truth ["blockOwnerDeletion", "controller"])

def managedShape : Shape :=
  .record (fieldsOf .text ["apiVersion", "fieldsType", "manager", "operation", "subresource"] ++
    [("fieldsV1", .anything), ("time", instantShape)])

def metadataShape : Shape :=
  .record (fieldsOf .text ["generateName", "name", "namespace", "resourceVersion", "selfLink",
      "uid"] ++
    fieldsOf (.dict .text) ["annotations", "labels"] ++
    fieldsOf instantShape ["creationTimestamp", "deletionTimestamp"] ++
    fieldsOf .int64 ["deletionGracePeriodSeconds", "generation"] ++
    [("finalizers", .list .text), ("managedFields", .list managedShape),
     ("ownerReferences", .list ownerShape)])

/-! ## pieces of several records -/

def nameShape : Shape := .record [("name", .text)]

def resourcesShape : Shape :=
  .record (("claims", .list (.record (fieldsOf .text ["name", "request"]))) ::
    fieldsOf (.dict .text) ["limits", "requests"])

def requirementShape : Shape :=
  .record (("values", .list .text) :: fieldsOf .text ["key", "operator"])

def labelSelectorShape : Shape :=
  .record [("matchExpressions", .list requirementShape), ("matchLabels", .dict .text)]

/-- a list of the keys of a source and the paths they are put under -/
def keyPathsShape : Shape :=
  .list (.record (("mode", .int32) :: fieldsOf .text ["key", "path"]))

def fieldSelectorShape : Shape := .record (fieldsOf .text ["apiVersion", "fieldPath"])

def resourceSelectorShape : Shape :=
  .record (fieldsOf .text ["containerName", "divisor", "resource"])

/-! ## security -/

def seLinuxShape : Shape := .record (fieldsOf .text ["level", "role", "type", "user"])

/-- a profile and where it is found -/
def profileShape : Shape := .record (fieldsOf .text ["localhostProfile", "type"])

def windowsShape : Shape :=
  .record (("hostProcess", .truth) ::
    fieldsOf .text ["gmsaCredentialSpec", "gmsaCredentialSpecName", "runAsUserName"])

def securityFields : List (String × Shape) :=
  fieldsOf profileShape ["appArmorProfile", "seccompProfile"] ++
    fieldsOf .int64 ["runAsGroup", "runAsUser"] ++
    [("runAsNonRoot", .truth), ("seLinuxOptions", seLinuxShape), ("windowsOptions", windowsShape)]

def containerSecurityShape : Shape :=
  .record (securityFields ++
    fieldsOf .truth ["allowPrivilegeEscalation", "privileged", "readOnlyRootFilesystem"] ++
    [("capabilities", .record (fieldsOf (.list .text) ["add", "drop"])), ("procMount", .text)])

def podSecurityShape : Shape :=
  .record (securityFields ++
    fieldsOf .text ["fsGroupChangePolicy", "seLinuxChangePolicy", "supplementalGroupsPolicy"] ++
    [("fsGroup", .int64), ("supplementalGroups", .list .int64),
     ("sysctls", .list (.record (fieldsOf .text ["name", "value"])))])

/-! ## containers -/

def envShape : Shape :=
  let keyShape := .record (("optional", .truth) :: fieldsOf .text ["key", "name"])
  .record (fieldsOf .text ["name", "value"] ++
    [("valueFrom", .record (fieldsOf keyShape ["configMapKeyRef", "secretKeyRef"] ++
        [("fieldRef", fieldSelectorShape), ("resourceFieldRef", resourceSelectorShape)]))])

def envFromShape : Shape :=
  .record (("prefix", .text) ::
    fieldsOf (.record [("name", .text), ("optional", .truth)]) ["configMapRef", "secretRef"])

def execShape : Shape := .record [("command", .list .text)]

def httpGetShape : Shape :=
  .record (fieldsOf .text ["host", "path", "scheme"] ++
    [("httpHeaders", .list (.record (fieldsOf .text ["name", "value"]))), ("port", .int32OrText)])

def tcpSocketShape : Shape := .record [("host", .text), ("port", .int32OrText)]

def handlerShape : Shape :=
  .record [("exec", execShape), ("httpGet", httpGetShape),
    ("sleep", .record [("seconds", .int64)]), ("tcpSocket", tcpSocketShape)]

def probeShape : Shape :=
  .record (fieldsOf .int32 ["failureThreshold", "initialDelaySeconds", "periodSeconds",
      "successThreshold", "timeoutSeconds"] ++
    [("exec", execShape), ("grpc", .record [("port", .int32), ("service", .text)]),
     ("httpGet", httpGetShape), ("tcpSocket", tcpSocketShape),
     ("terminationGracePeriodSeconds", .int64)])

def portShape : Shape :=
  .record (fieldsOf .int32 ["containerPort", "hostPort"] ++
    fieldsOf .text ["hostIP", "name", "protocol"])

def mountShape : Shape :=
  .record (("readOnly", .truth) ::
    fieldsOf .text ["mountPath", "mountPropagation", "name", "recursiveReadOnly", "subPath",
      "subPathExpr"])

def containerFields : List (String × Shape) :=
  fieldsOf .text ["image", "imagePullPolicy", "name", "restartPolicy", "terminationMessagePath",
      "terminationMessagePolicy", "workingDir"] ++
    fieldsOf (.list .text) ["args", "command"] ++
    fieldsOf .truth ["stdin", "stdinOnce", "tty"] ++
    fieldsOf probeShape ["livenessProbe", "readinessProbe", "startupProbe"] ++
    [("env", .list envShape), ("envFrom", .list envFromShape),
     ("lifecycle", .record (fieldsOf handlerShape ["postStart", "preStop"])),
     ("ports", .list portShape),
     ("resizePolicy", .list (.record (fieldsOf .text ["resourceName", "restartPolicy"]))),
     ("resources", resourcesShape), ("securityContext", containerSecurityShape),
     ("volumeDevices", .list (.record (fieldsOf .text ["devicePath", "name"]))),
     ("volumeMounts", .list mountShape)]

def containerShape : Shape := .record containerFields

def ephemeralContainerShape : Shape := .record (("targetContainerName", .text) :: containerFields)

/-! ## where a pod may run -/

def nodeTermShape : Shape :=
  .record (fieldsOf (.list requirementShape) ["matchExpressions", "matchFields"])

def nodeAffinityShape : Shape :=
  .record
    [("preferredDuringSchedulingIgnoredDuringExecution",
        .list (.record [("preference", nodeTermShape), ("weight", .int32)])),
     ("requiredDuringSchedulingIgnoredDuringExecution",
        .record [("nodeSelectorTerms", .list nodeTermShape)])]

def podTermShape : Shape :=
  .record (fieldsOf labelSelectorShape ["labelSelector", "namespaceSelector"] ++
    fieldsOf (.list .text) ["matchLabelKeys", "mismatchLabelKeys", "namespaces"] ++
    [("topologyKey", .text)])

def podAffinityShape : Shape :=
  .record
    [("preferredDuringSchedulingIgnoredDuringExecution",
        .list (.record [("podAffinityTerm", podTermShape), ("weight", .int32)])),
     ("requiredDuringSchedulingIgnoredDuringExecution", .list podTermShape)]

def affinityShape : Shape :=
  .record (("nodeAffinity", nodeAffinityShape) ::
    fieldsOf podAffinityShape ["podAffinity", "podAntiAffinity"])

def tolerationShape : Shape :=
  .record (("tolerationSeconds", .int64) :: fieldsOf .text ["effect", "key", "operator", "value"])

def spreadShape : Shape :=
  .record (fieldsOf .int32 ["maxSkew", "minDomains"] ++
    fieldsOf .text ["nodeAffinityPolicy", "nodeTaintsPolicy", "topologyKey",
      "whenUnsatisfiable"] ++
    [("labelSelector", labelSelectorShape), ("matchLabelKeys", .list .text)])

/-! ## volumes -/

def claimTemplateShape : Shape :=
  .record
    [("metadata", metadataShape),
     ("spec", .record (fieldsOf .text ["storageClassName", "volumeAttributesClassName",
          "volumeMode", "volumeName"] ++
        [("accessModes", .list .text),
         ("dataSource", .record (fieldsOf .text ["apiGroup", "kind", "name"])),
         ("dataSourceRef", .record (fieldsOf .text ["apiGroup", "kind", "name", "namespace"])),
         ("resources", .record (fieldsOf (.dict .text) ["limits", "requests"])),
         ("selector", labelSelectorShape)]))]

/-- files made of the fields of a pod -/
def podFilesShape : Shape :=
  .list (.record [("fieldRef", fieldSelectorShape), ("mode", .int32), ("path", .text),
    ("resourceFieldRef", resourceSelectorShape)])

def projectionShape : Shape :=
  let keysShape := .record [("items", keyPathsShape), ("name", .text), ("optional", .truth)]
  .record (fieldsOf keysShape ["configMap", "secret"] ++
    [("clusterTrustBundle", .record (fieldsOf .text ["name", "path", "signerName"] ++
        [("labelSelector", labelSelectorShape), ("optional", .truth)])),
     ("downwardAPI", .record [("items", podFilesShape)]),
     ("serviceAccountToken", .record (("expirationSeconds", .int64) ::
        fieldsOf .text ["audience", "path"]))])

/-- sources of a volume inside the cluster -/
def clusterVolumes : List (String × Shape) :=
  [("configMap", .record [("defaultMode", .int32), ("items", keyPathsShape), ("name", .text),
      ("optional", .truth)]),
   ("downwardAPI", .record [("defaultMode", .int32), ("items", podFilesShape)]),
   ("emptyDir", .record (fieldsOf .text ["medium", "sizeLimit"])),
   ("ephemeral", .record [("volumeClaimTemplate", claimTemplateShape)]),
   ("hostPath", .record (fieldsOf .text ["path", "type"])),
   ("image", .record (fieldsOf .text ["pullPolicy", "reference"])),
   ("persistentVolumeClaim", .record [("claimName", .text), ("readOnly", .truth)]),
   ("projected", .record [("defaultMode", .int32), ("sources", .list projectionShape)]),
   ("secret", .record [("defaultMode", .int32), ("items", keyPathsShape), ("optional", .truth),
      ("secretName", .text)])]

/-- sources of a volume outside the cluster -/
def storageVolumes : List (String × Shape) :=
  let readOnly := ("readOnly", Shape.truth)
  let secretRef := ("secretRef", nameShape)
  [("awsElasticBlockStore", .record (("partition", .int32) :: readOnly ::
      fieldsOf .text ["fsType", "volumeID"])),
   ("azureDisk", .record (readOnly ::
      fieldsOf .text ["cachingMode", "diskName", "diskURI", "fsType", "kind"])),
   ("azureFile", .record (readOnly :: fieldsOf .text ["secretName", "shareName"])),
   ("cephfs", .record (("monitors", .list .text) :: readOnly :: secretRef ::
      fieldsOf .text ["path", "secretFile", "user"])),
   ("cinder", .record (readOnly :: secretRef :: fieldsOf .text ["fsType", "volumeID"])),
   ("csi", .record (("nodePublishSecretRef", nameShape) :: readOnly ::
      ("volumeAttributes", .dict .text) :: fieldsOf .text ["driver", "fsType"])),
   ("fc", .record (("fsType", .text) :: ("lun", .int32) :: readOnly ::
      fieldsOf (.list .text) ["targetWWNs", "wwids"])),
   ("flexVolume", .record (("options", .dict .text) :: readOnly :: secretRef ::
      fieldsOf .text ["driver", "fsType"])),
   ("flocker", .record (fieldsOf .text ["datasetName", "datasetUUID"])),
   ("gcePersistentDisk", .record (("partition", .int32) :: readOnly ::
      fieldsOf .text ["fsType", "pdName"])),
   ("gitRepo", .record (fieldsOf .text ["directory", "repository", "revision"])),
   ("glusterfs", .record (readOnly :: fieldsOf .text ["endpoints", "path"])),
   ("iscsi", .record (("lun", .int32) :: ("portals", .list .text) :: readOnly :: secretRef ::
      fieldsOf .truth ["chapAuthDiscovery", "chapAuthSession"] ++
      fieldsOf .text ["fsType", "initiatorName", "iqn", "iscsiInterface", "targetPortal"])),
   ("nfs", .record (readOnly :: fieldsOf .text ["path", "server"])),
   ("photonPersistentDisk", .record (fieldsOf .text ["fsType", "pdID"])),
   ("portworxVolume", .record (readOnly :: fieldsOf .text ["fsType", "volumeID"])),
   ("quobyte", .record (readOnly ::
      fieldsOf .text ["group", "registry", "tenant", "user", "volume"])),
   ("rbd", .record (("monitors", .list .text) :: readOnly :: secretRef ::
      fieldsOf .text ["fsType", "image", "keyring", "pool", "user"])),
   ("scaleIO", .record (readOnly :: secretRef :: ("sslEnabled", .truth) ::
      fieldsOf .text ["fsType", "gateway", "protectionDomain", "storageMode", "storagePool",
        "system", "volumeName"])),
   ("storageos", .record (readOnly :: secretRef ::
      fieldsOf .text ["fsType", "volumeName", "volumeNamespace"])),
   ("vsphereVolume", .record
      (fieldsOf .text ["fsType", "storagePolicyID", "storagePolicyName", "volumePath"]))]

def volumeShape : Shape := .record (("name", .text) :: clusterVolumes ++ storageVolumes)

/-! ## what was asked for -/

def dnsShape : Shape :=
  .record (("options", .list (.record (fieldsOf .text ["name", "value"]))) ::
    fieldsOf (.list .text) ["nameservers", "searches"])

def podSpecShape : Shape :=
  .record (fieldsOf .text ["dnsPolicy", "hostname", "nodeName", "preemptionPolicy",
      "priorityClassName", "restartPolicy", "runtimeClassName", "schedulerName", "serviceAccount",
      "serviceAccountName", "subdomain"] ++
    fieldsOf .truth ["automountServiceAccountToken", "enableServiceLinks", "hostIPC", "hostNetwork",
      "hostPID", "hostUsers", "setHostnameAsFQDN", "shareProcessNamespace"] ++
    fieldsOf .int64 ["activeDeadlineSeconds", "terminationGracePeriodSeconds"] ++
    fieldsOf (.dict .text) ["nodeSelector", "overhead"] ++
    fieldsOf (.list containerShape) ["containers", "initContainers"] ++
    fieldsOf (.list nameShape) ["imagePullSecrets", "schedulingGates"] ++
    [("affinity", affinityShape), ("dnsConfig", dnsShape),
     ("ephemeralContainers", .list ephemeralContainerShape),
     ("hostAliases", .list (.record [("hostnames", .list .text), ("ip", .text)])),
     ("os", nameShape), ("priority", .int32),
     ("readinessGates", .list (.record [("conditionType", .text)])),
     ("resourceClaims", .list (.record
        (fieldsOf .text ["name", "resourceClaimName", "resourceClaimTemplateName"]))),
     ("resources", resourcesShape), ("securityContext", podSecurityShape),
     ("tolerations", .list tolerationShape), ("topologySpreadConstraints", .list spreadShape),
     ("volumes", .list volumeShape)])

/-! ## what has become of it -/

def stateShape : Shape :=
  .record
    [("running", .record [("startedAt", instantShape)]),
     ("terminated", .record (fieldsOf .text ["containerID", "message", "reason"] ++
        fieldsOf .int32 ["exitCode", "signal"] ++
        fieldsOf instantShape ["finishedAt", "startedAt"])),
     ("waiting", .record (fieldsOf .text ["message", "reason"]))]

def statusShape : Shape :=
  .record (fieldsOf .text ["containerID", "image", "imageID", "name"] ++
    fieldsOf .truth ["ready", "started"] ++ fieldsOf stateShape ["lastState", "state"] ++
    [("allocatedResources", .dict .text),
     ("allocatedResourcesStatus", .list (.record
        [("name", .text),
         ("resources", .list (.record (fieldsOf .text ["health", "resourceID"])))])),
     ("resources", resourcesShape), ("restartCount", .int32),
     ("user", .record [("linux", .record (("supplementalGroups", .list .int64) ::
        fieldsOf .int64 ["gid", "uid"]))]),
     ("volumeMounts", .list (.record (("readOnly", .truth) ::
        fieldsOf .text ["mountPath", "name", "recursiveReadOnly"])))])

def conditionShape : Shape :=
  .record (fieldsOf instantShape ["lastProbeTime", "lastTransitionTime"] ++
    fieldsOf .text ["message", "reason", "status", "type"])

def podStatusShape : Shape :=
  .record (fieldsOf .text ["hostIP", "message", "nominatedNodeName", "phase", "podIP", "qosClass",
      "reason", "resize"] ++
    fieldsOf (.list statusShape) ["containerStatuses", "ephemeralContainerStatuses",
      "initContainerStatuses"] ++
    fieldsOf (.list (.record [("ip", .text)])) ["hostIPs", "podIPs"] ++
    [("conditions", .list conditionShape),
     ("resourceClaimStatuses", .list (.record (fieldsOf .text ["name", "resourceClaimName"]))),
     ("startTime", instantShape)])

/-- a pod; its version and kind may be missing, but not be others or null -/
def podShape : Shape :=
  .object
    [("apiVersion", .oneOf ["v1"]), ("kind", .oneOf ["Pod"]),
     ("metadata", .optional metadataShape), ("spec", .optional podSpecShape),
     ("status", .optional podStatusShape)] none true

end StepRunner.ApiServer
