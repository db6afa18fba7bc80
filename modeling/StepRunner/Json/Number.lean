import StepRunner.Json.Value

/-!
# Numbers in JSON text

A number stands for a double.  Of its digits as many count as 64 bits hold; they are rounded, a
power of ten is rounded, and so is the product of the two.  A number is refused if the outcome is
too large for a double, so at the very edge of the range the rounding decides.

* `NumberText`         a number as it is written
* `NumberText.read?`   the longest number at the front of a text
* `nearestDouble`      a natural number rounded to 53 bits
* `NumberText.significand`, `NumberText.scale`   the digits that count, and their power of ten
* `NumberText.isFinite`    whether the double is one
* `readNumber`         the value that a number at the front is
-/

namespace StepRunner.Json

/-! ## the written form -/

structure NumberText where
  negative : Bool
  /-- the digits before the point -/
  whole : List Char
  /-- the digits behind the point; none if there is no point -/
  fraction : List Char
  exponent : Option Int
deriving DecidableEq, Repr

/-- the number that a list of decimal digits writes -/
def digitsValue (digits : List Char) : Nat :=
  digits.foldl (fun n c => 10 * n + (c.toNat - 48)) 0

def readFraction : List Char → Option (List Char × List Char)
  | '.' :: rest =>
    let digits := rest.takeWhile Char.isDigit
    if digits.isEmpty then none else some (digits, rest.dropWhile Char.isDigit)
  | s => some ([], s)

def readExponent : List Char → Option (Option Int × List Char)
  | [] => some (none, [])
  | e :: rest =>
    if e = 'e' || e = 'E' then
      let negative := rest.head? = some '-'
      let s := if negative || rest.head? = some '+' then rest.tail else rest
      let digits := s.takeWhile Char.isDigit
      if digits.isEmpty then none
      else
        let n : Int := digitsValue digits
        some (some (if negative then -n else n), s.dropWhile Char.isDigit)
    else some (none, e :: rest)

/-- the longest number at the front, and what follows it -/
def NumberText.read? (s : List Char) : Option (NumberText × List Char) :=
  let negative : Bool := s.head? = some '-'
  let s := if negative then s.tail else s
  let whole := s.takeWhile Char.isDigit
  let s := s.dropWhile Char.isDigit
  if whole.isEmpty || (whole.length > 1 && whole.head? = some '0') then none
  else do
    let (fraction, s) ← readFraction s
    let (exponent, s) ← readExponent s
    return (⟨negative, whole, fraction, exponent⟩, s)

/-! ## rounding -/

/-- The nearest number of 53 bits and a power of two; of two that are equally near, the one whose
last bit is zero. -/
def nearestDouble (n : Nat) : Nat :=
  let unit := Nat.pow 2 (n.log2 - 52)
  let q := n / unit
  let twice := 2 * (n % unit)
  (if unit < twice || (twice = unit && q % 2 = 1) then q + 1 else q) * unit

/-- whether a natural number rounds to a double and not to infinity -/
def roundsToDouble (n : Nat) : Bool := nearestDouble n < Nat.pow 2 1024

/-- Digits are put behind a number as long as 64 bits hold the outcome: the outcome, and the digits
from the first one on that did not fit. -/
def absorb (n : Nat) : List Char → Nat × List Char
  | [] => (n, [])
  | c :: rest =>
    let m := 10 * n + (c.toNat - 48)
    if m < UInt64.size then absorb m rest else (n, c :: rest)

namespace NumberText

/-- the digits that count -/
def significand (t : NumberText) : Nat := (absorb (absorb 0 t.whole).1 t.fraction).1

/-- The power of ten that goes with them.  Each digit before the point that does not count is a
factor of ten more, and each one behind the point that counts is one less. -/
def scale (t : NumberText) : Int :=
  let (n, left) := absorb 0 t.whole
  t.exponent.getD 0 + left.length - (t.fraction.length - (absorb n t.fraction).2.length : Nat)

def isFinite (t : NumberText) : Bool :=
  t.significand = 0 || t.scale < 0 ||
    (t.scale ≤ 308 &&
      roundsToDouble (nearestDouble t.significand * nearestDouble (Nat.pow 10 t.scale.toNat)))

/-- The value of a number.  Zero with a minus sign is no integer. -/
def value (t : NumberText) : Json :=
  let digits := digitsValue (t.whole ++ t.fraction)
  let signed : Int := if t.negative then -digits else digits
  if t.fraction.isEmpty && t.exponent.isNone && !(t.negative && digits = 0) then .int signed
  else .decimal signed (t.exponent.getD 0 - t.fraction.length)

end NumberText

/-- the value of the longest number at the front, and what follows it -/
def readNumber (s : List Char) : Option (Json × List Char) :=
  match NumberText.read? s with
  | none => none
  | some (t, rest) => if t.isFinite then some (t.value, rest) else none

end StepRunner.Json
