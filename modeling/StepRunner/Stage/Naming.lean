import StepRunner.Hash.Blake3
import StepRunner.Pod.Spec
import StepRunner.Text.Utf8

/-!
# Names of pods and values of labels

A pod is named after its stage, its step and its build, as one part of a domain: at most 63 letters
`a` to `z`, digits and dashes.  Stage and step are cleaned up for that, so a hash of their raw names
stands behind them.

* `lowered`         the lower case of a character, as far as a domain can tell
* `dnsSegment`      a name cleaned up for a domain
* `nameHash`        six digits that tell raw names apart
* `podName`         the pod of a step of a build
* `podNameBy`       the same for any lower case and any hash
* `labelValue`      a text cleaned up for a label
-/

namespace StepRunner

/-! ## segments -/

/-- a letter `a` to `z` or a digit -/
def isDnsChar (c : Char) : Bool := ('a' ≤ c && c ≤ 'z') || ('0' ≤ c && c ≤ '9')

/-- The lower case of a character.  Outside ASCII only the Kelvin sign and the dotted capital I have
a lower case with an ASCII letter in it; every other character stays as it is, for neither it nor
its lower case can stand in a domain. -/
def lowered (c : Char) : List Char :=
  if 'A' ≤ c ∧ c ≤ 'Z' then [Char.ofNat (c.toNat + 32)]
  else if c = '\u212A' then ['k']
  else if c = '\u0130' then ['i', '\u0307']
  else [c]

/-- a character of a domain, or a dash in its place -/
def dnsChar (c : Char) : Char := if isDnsChar c then c else '-'

/-- drops each dash that follows a dash, `afterDash` saying what comes before -/
def collapse (afterDash : Bool) : List Char → List Char
  | [] => []
  | c :: rest =>
    if c = '-' then
      if afterDash then collapse true rest else c :: collapse true rest
    else c :: collapse false rest

/-- the list without the elements at its end that satisfy `p` -/
def dropEnd (p : Char → Bool) (s : List Char) : List Char := (s.reverse.dropWhile p).reverse

/-- A name cleaned up for a domain, `lower` being the lower case of a character: other characters
become dashes, runs of dashes one dash, and there is none at either end. -/
def dnsSegment (lower : Char → List Char) (s : List Char) : List Char :=
  dropEnd (· = '-') (collapse true ((s.flatMap lower).map dnsChar))

/-! ## pods -/

/-- what tells the raw names of stage and step apart: both, with a zero byte between them -/
def hashedKey (stage step : String) : List UInt8 :=
  Text.Utf8.encode stage ++ 0 :: Text.Utf8.encode step

/-- digits of the hash that a pod name carries -/
def hashDigits : Nat := 6

/-- what a hash, given by its digits, says of the raw names -/
def nameHashBy (digest : List UInt8 → List Char) (stage step : String) : List Char :=
  (digest (hashedKey stage step)).take hashDigits

def nameHash (stage step : String) : List Char := nameHashBy Hash.Blake3.hex stage step

/-- the cleaned segments that are not empty, each with a dash after it -/
def podStem (segments : List (List Char)) : List Char :=
  segments.flatMap fun s => if s.isEmpty then [] else s ++ ['-']

/-- a stem cut to `budget` characters, still with one dash at its end -/
def cutStem (budget : Nat) (stem : List Char) : List Char :=
  if budget < stem.length then dropEnd (· = '-') (stem.take (budget - 1)) ++ ['-'] else stem

/-- the hash and the number of the build -/
def podTail (hash : List Char) (build : UInt64) : List Char :=
  hash ++ '-' :: Nat.toDigits 10 build.toNat

/-- the name of a pod after cleaned segments, a hash and a build -/
def podNameOf (segments : List (List Char)) (hash : List Char) (build : UInt64) : String :=
  let ending := podTail hash build
  String.ofList (cutStem (maxLabelLength - ending.length) (podStem segments) ++ ending)

/-- the name of the pod that runs a step of a build, `lower` being the lower case of a character and
`digest` the digits of a hash -/
def podNameBy (lower : Char → List Char) (digest : List UInt8 → List Char) (stage step : String)
    (build : UInt64) : String :=
  podNameOf [dnsSegment lower stage.toList, dnsSegment lower step.toList]
    (nameHashBy digest stage step) build

/-- the name of the pod that runs a step of a build -/
def podName (stage step : String) (build : UInt64) : String :=
  podNameBy lowered Hash.Blake3.hex stage step build

/-! ## labels -/

/-- a character of a label value, or a dash in its place -/
def labelChar (c : Char) : Char := if isLabelChar c then c else '-'

/-- A text cleaned up for a label: other characters become dashes, letters or digits stand at both
ends, and 63 characters are the most. -/
def labelValue (raw : String) : String :=
  let other (c : Char) : Bool := !isAlnum c
  let value := dropEnd other ((raw.toList.map labelChar).dropWhile other)
  String.ofList (dropEnd other (value.take maxLabelLength))

end StepRunner
