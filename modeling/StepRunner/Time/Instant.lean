/-!
# Instants

A point in time of the proleptic Gregorian calendar in UTC, read and written in the notation of
RFC 3339.

Reading is generous: blanks may stand before a number and around a separator, numbers may lack
leading zeros, a year may carry a sign and then have any number of digits, the date may be followed
by a blank instead of `T`, and `utc` may stand for `Z`.  Writing gives the one plain form, with 0,
3, 6 or 9 digits of a second: the fewest that lose nothing.

* `Date`             a day of the calendar
* `Instant`          a day, a second of it and a fraction; from one second on it is a leap second
* `Instant.parse?`   reads the notation
* `Instant.render`   writes it
-/

namespace StepRunner

/-! ## days -/

structure Date where
  year : Int
  month : Nat
  day : Nat
deriving DecidableEq, Repr

namespace Date

def isLeap (year : Int) : Bool := year % 4 = 0 && (year % 100 != 0 || year % 400 = 0)

def daysIn (year : Int) (month : Nat) : Nat :=
  if month = 2 then (if isLeap year then 29 else 28)
  else if month = 4 || month = 6 || month = 9 || month = 11 then 30
  else 31

/-- the years that a calendar date can carry -/
def inRange (year : Int) : Bool := -262143 ≤ year && year ≤ 262142

def of? (year : Int) (month day : Nat) : Option Date :=
  if inRange year && 1 ≤ month && month ≤ 12 && 1 ≤ day && day ≤ daysIn year month then
    some ⟨year, month, day⟩
  else none

def next (d : Date) : Date :=
  if d.day < daysIn d.year d.month then { d with day := d.day + 1 }
  else if d.month < 12 then ⟨d.year, d.month + 1, 1⟩
  else ⟨d.year + 1, 1, 1⟩

def previous (d : Date) : Date :=
  if 1 < d.day then { d with day := d.day - 1 }
  else if 1 < d.month then ⟨d.year, d.month - 1, daysIn d.year (d.month - 1)⟩
  else ⟨d.year - 1, 12, 31⟩

end Date

/-! ## instants -/

structure Instant where
  date : Date
  /-- the second of the day, from 0 to 86399 -/
  second : Nat
  /-- billionths of a second; from a whole second on, the leap second after `second` -/
  nano : Nat
deriving DecidableEq, Repr

namespace Instant

/-! ## reading -/

/-- the blanks of Unicode -/
def isBlank (c : Char) : Bool :=
  let n := c.toNat
  (9 ≤ n && n ≤ 13) || n = 0x20 || n = 0x85 || n = 0xA0 || n = 0x1680 ||
    (0x2000 ≤ n && n ≤ 0x200A) || n = 0x2028 || n = 0x2029 || n = 0x202F || n = 0x205F ||
    n = 0x3000

def skipBlanks (s : List Char) : List Char := s.dropWhile isBlank

/-- the number that a list of decimal digits writes -/
def digitsValue (digits : List Char) : Nat :=
  digits.foldl (fun n c => 10 * n + (c.toNat - 48)) 0

def number? (width : Nat) (s : List Char) : Option (Nat × List Char) :=
  let digits := (s.take width).takeWhile Char.isDigit
  if digits.isEmpty then none else some (digitsValue digits, s.drop digits.length)

/-- a number after blanks -/
def field? (width : Nat) (s : List Char) : Option (Nat × List Char) := number? width (skipBlanks s)

/-- a year: four digits at most, or a sign and any number of digits -/
def year? (s : List Char) : Option (Int × List Char) :=
  match skipBlanks s with
  | '-' :: rest => (number? rest.length rest).map fun (n, rest) => (-(n : Int), rest)
  | '+' :: rest => (number? rest.length rest).map fun (n, rest) => ((n : Int), rest)
  | rest => (number? 4 rest).map fun (n, rest) => ((n : Int), rest)

def separator? (c : Char) (s : List Char) : Option (List Char) :=
  match skipBlanks s with
  | d :: rest => if d = c then some rest else none
  | [] => none

/-- billionths of a second after a point, if there is one; digits past the ninth are passed over -/
def fraction? : List Char → Option (Nat × List Char)
  | '.' :: rest =>
    match number? 9 rest with
    | none => none
    | some (n, after) =>
      let width := rest.length - after.length
      some (n * Nat.pow 10 (9 - width), after.dropWhile Char.isDigit)
  | s => some (0, s)

/-- an offset from UTC in seconds -/
def offset? (s : List Char) : Option (Int × List Char) :=
  match s with
  | 'Z' :: rest => some (0, rest)
  | 'z' :: rest => some (0, rest)
  | sign :: h :: h' :: rest =>
    if (sign = '+' || sign = '-' || sign = '\u2212') && h.isDigit && h'.isDigit then
      match rest.dropWhile (fun c => c = ':' || isBlank c) with
      | m :: m' :: rest =>
        if '0' ≤ m && m ≤ '5' && m'.isDigit then
          let seconds : Int := digitsValue [h, h'] * 3600 + digitsValue [m, m'] * 60
          some (if sign = '+' then seconds else -seconds, rest)
        else none
      | _ => none
    else none
  | _ => none

/-- an offset, or `UTC` in letters of any case -/
def zone? (s : List Char) : Option (Int × List Char) :=
  match s with
  | u :: t :: c :: rest =>
    if u.toLower = 'u' && t.toLower = 't' && c.toLower = 'c' then some (0, rest) else offset? s
  | _ => offset? s

/-- the instant of a local time at an offset of less than a day -/
def ofLocal? (date : Date) (second nano : Nat) (offset : Int) : Option Instant :=
  if offset ≤ -86400 || 86400 ≤ offset then none
  else
    let total : Int := second - offset
    let (date, total) :=
      if total < 0 then (date.previous, total + 86400)
      else if 86400 ≤ total then (date.next, total - 86400)
      else (date, total)
    if Date.inRange date.year then some ⟨date, total.toNat, nano⟩ else none

def parse? (text : String) : Option Instant := do
  let (year, s) ← year? text.toList
  let (month, s) ← field? 2 (← separator? '-' s)
  let (day, s) ← field? 2 (← separator? '-' s)
  let s ← match s with
    | c :: rest => if c = 'T' || c = 't' || c = ' ' then some rest else none
    | [] => none
  let (hour, s) ← field? 2 s
  let (minute, s) ← field? 2 (← separator? ':' s)
  let (second, s) ← field? 2 (← separator? ':' s)
  let (nano, s) ← fraction? s
  let (offset, s) ← zone? (skipBlanks s)
  let date ← Date.of? year month day
  if !(skipBlanks s).isEmpty || 24 ≤ hour || 60 ≤ minute || 61 ≤ second then none
  else if second = 60 then ofLocal? date (hour * 3600 + minute * 60 + 59) (nano + 1000000000) offset
  else ofLocal? date (hour * 3600 + minute * 60 + second) nano offset

/-! ## writing -/

/-- a number with zeros in front up to `width` digits -/
def padded (width n : Nat) : String :=
  let digits := Nat.toDigits 10 n
  String.ofList (List.replicate (width - digits.length) '0' ++ digits)

/-- a year of four digits, with a sign outside 0 to 9999 -/
def yearText (year : Int) : String :=
  if 0 ≤ year && year ≤ 9999 then padded 4 year.toNat
  else (if year < 0 then "-" else "+") ++ padded 4 year.natAbs

/-- the fraction of a second with the fewest of 0, 3, 6 or 9 digits that lose nothing -/
def fractionText (nano : Nat) : String :=
  if nano = 0 then ""
  else if nano % 1000000 = 0 then "." ++ padded 3 (nano / 1000000)
  else if nano % 1000 = 0 then "." ++ padded 6 (nano / 1000)
  else "." ++ padded 9 nano

def render (t : Instant) : String :=
  let leap := 1000000000 ≤ t.nano
  let nano := if leap then t.nano - 1000000000 else t.nano
  let second := t.second % 60 + (if leap then 1 else 0)
  yearText t.date.year ++ "-" ++ padded 2 t.date.month ++ "-" ++ padded 2 t.date.day ++ "T" ++
    padded 2 (t.second / 3600) ++ ":" ++ padded 2 (t.second / 60 % 60) ++ ":" ++ padded 2 second ++
    fractionText nano ++ "Z"

end Instant

end StepRunner
