import StepRunner.Text.Escape
import StepRunner.Text.Utf8

/-!
# Sanitizing one line

A line of output as a terminal would leave it: what a carriage return has overwritten goes, escape
sequences go, and bytes that are no text are replaced.

* `SanitizeFlag`          the two transforms
* `SanitizeOptions`       a set of transforms
* `afterLastCR`           what stands after the last carriage return
* `sanitizedBytes`        the bytes left by the chosen transforms
* `sanitize`              their text
-/

namespace StepRunner.Text

/-! ## options -/

/-- a transform of a line -/
inductive SanitizeFlag where
  /-- keep what stands after the last carriage return -/
  | fromLastCR
  /-- drop escape sequences -/
  | removeEscapes
deriving DecidableEq, Repr

/-- a set of transforms; all of them unless said otherwise -/
structure SanitizeOptions where
  fromLastCR : Bool := true
  removeEscapes : Bool := true
deriving DecidableEq, Repr, Inhabited

namespace SanitizeOptions

def none : SanitizeOptions := ⟨false, false⟩

def all : SanitizeOptions := ⟨true, true⟩

def union (a b : SanitizeOptions) : SanitizeOptions :=
  ⟨a.fromLastCR || b.fromLastCR, a.removeEscapes || b.removeEscapes⟩

def contains (a b : SanitizeOptions) : Bool :=
  (a.fromLastCR || !b.fromLastCR) && (a.removeEscapes || !b.removeEscapes)

def isEmpty (a : SanitizeOptions) : Bool := !a.fromLastCR && !a.removeEscapes

def single : SanitizeFlag → SanitizeOptions
  | .fromLastCR => ⟨true, false⟩
  | .removeEscapes => ⟨false, true⟩

def ofList (flags : List SanitizeFlag) : SanitizeOptions :=
  flags.foldl (fun a f => a.union (single f)) none

/-- the transforms in their fixed order, each once -/
def toList (a : SanitizeOptions) : List SanitizeFlag :=
  (if a.fromLastCR then [.fromLastCR] else []) ++ (if a.removeEscapes then [.removeEscapes] else [])

/-- the set as it is shown in a diagnosis -/
def describe (a : SanitizeOptions) : String :=
  let names := a.toList.map fun
    | .fromLastCR => "FromLastCr"
    | .removeEscapes => "RemoveAnsiCodes"
  "SanitizeOptions([" ++ String.intercalate ", " names ++ "])"

end SanitizeOptions

/-- what is said when the escape grammar cannot be used -/
def escapesUnavailable (reason : String) : String := "ANSI escape matcher unavailable: " ++ reason

/-! ## one line -/

def cr : UInt8 := 0x0D
def lf : UInt8 := 0x0A

/-- what stands after the last carriage return; all of it where there is none -/
def afterLastCR (s : List UInt8) : List UInt8 := (s.reverse.takeWhile (· != cr)).reverse

def sanitizedBytes (options : SanitizeOptions) (s : List UInt8) : List UInt8 :=
  let s := if options.fromLastCR then afterLastCR s else s
  if options.removeEscapes then Escape.strip s else s

/-- the text left by the chosen transforms -/
def sanitize (options : SanitizeOptions) (s : List UInt8) : String :=
  Utf8.repair (sanitizedBytes options s)

end StepRunner.Text
