import StepRunner.Json.Printer
import StepRunner.ApiServer.Manifest
import StepRunner.Text.Utf8

/-!
# Requests to an API server

* `Request`            method, path, query and body
* `Request.ofTarget?`  the request for a target, refused if the target is no URI
* `formEncode`         a value inside a query
* `createRequest?`, `fetchRequest?`, `logRequest?`, `deleteRequest?`   the four requests
-/

namespace StepRunner.ApiServer

structure Request where
  method : String
  path : String
  /-- what stands after the question mark -/
  query : String
  body : Option Json := none

/-! ## targets -/

def isPathChar (c : Char) : Bool :=
  let n := c.toNat
  n = 0x21 || n = 0x22 || (0x24 ≤ n && n ≤ 0x3B) || n = 0x3D || (0x40 ≤ n && n ≤ 0x5F) ||
    (0x61 ≤ n && n ≠ 0x7F)

def isQueryChar (c : Char) : Bool :=
  let n := c.toNat
  n = 0x21 || (0x24 ≤ n && n ≤ 0x3B) || n = 0x3D || (0x3F ≤ n && n ≠ 0x7F)

/-- bytes that a target may have -/
def maxTargetBytes : Nat := 65534

/-- the request for a target; what stands after a number sign is not sent -/
def Request.ofTarget? (method target : String) (body : Option Json) : Option Request :=
  let sent := target.toList.takeWhile (· != '#')
  let path := sent.takeWhile (· != '?')
  let query := (sent.drop path.length).drop 1
  if target.utf8ByteSize ≤ maxTargetBytes && path.all isPathChar && query.all isQueryChar then
    some ⟨method, String.ofList path, String.ofList query, body⟩
  else none

/-- whether a byte stands for itself in a form -/
def isFormByte (b : UInt8) : Bool :=
  (0x30 ≤ b && b ≤ 0x39) || (0x41 ≤ b && b ≤ 0x5A) || (0x61 ≤ b && b ≤ 0x7A) ||
    b = 0x2A || b = 0x2D || b = 0x2E || b = 0x5F

/-- an upper-case hexadecimal digit -/
def formDigit (n : Nat) : Char := Char.ofNat (if n < 10 then 48 + n else 55 + n)

/-- one byte inside a form -/
def formByte (b : UInt8) : List Char :=
  if isFormByte b then [Char.ofNat b.toNat]
  else if b = 0x20 then ['+']
  else ['%', formDigit (b.toNat / 16), formDigit (b.toNat % 16)]

def formEncode (s : String) : String := String.ofList ((Text.Utf8.encode s).flatMap formByte)

/-! ## the four calls -/

def podsPath (namespaceName : String) : String := "/api/v1/namespaces/" ++ namespaceName ++ "/pods"

def podPath (pod : PodRef) : String := podsPath pod.namespaceName ++ "/" ++ pod.name

def createRequest? (spec : PodSpec) : Option Request :=
  Request.ofTarget? "POST" (podsPath spec.namespaceName ++ "?") (some (Manifest.ofSpec spec).toJson)

/-- looks at a pod; a pod without a name cannot be asked for -/
def fetchRequest? (pod : PodRef) : Option Request :=
  if pod.name = "" then none else Request.ofTarget? "GET" (podPath pod) none

def logRequest? (pod : PodRef) (container : String) : Option Request :=
  let query := "&container=" ++ formEncode container ++ "&follow=true"
  Request.ofTarget? "GET" (podPath pod ++ "/log?" ++ query) none

/-- deletes a pod; a pod without a name cannot be asked for -/
def deleteRequest? (pod : PodRef) : Option Request :=
  if pod.name = "" then none else Request.ofTarget? "DELETE" (podPath pod ++ "?") none

end StepRunner.ApiServer
