import StepRunner.Json.Value

/-!
# Writing JSON text

A value is written on one line without blanks.  What cannot stand in a text is escaped; a character
outside ASCII may stand for itself, or be written as one or two units of four hexadecimal digits.

* `Charset`            whether characters outside ASCII stand for themselves
* `Json.renderOnto`    the text of a value, behind a text that is already written
* `Json.renderWith`    the text of a value
* `Json.render`        its text in ASCII
* `Json.quotedOnto`    a text between quotes
* `Json.escaped`       one character inside the quotes
-/

namespace StepRunner

inductive Charset where
  | ascii
  | unicode
deriving DecidableEq, Repr

namespace Json

def hexDigit (n : Nat) : Char := Char.ofNat (if n < 10 then 48 + n else 87 + n)

/-- an escape of one unit -/
def unitEscape (u : Nat) : String :=
  String.ofList ['\\', 'u', hexDigit (u / 4096 % 16), hexDigit (u / 256 % 16),
    hexDigit (u / 16 % 16), hexDigit (u % 16)]

def escaped (charset : Charset) (c : Char) : String :=
  if c = '"' then "\\\""
  else if c = '\\' then "\\\\"
  else if c = '\x08' then "\\b"
  else if c = '\t' then "\\t"
  else if c = '\n' then "\\n"
  else if c = '\x0c' then "\\f"
  else if c = '\r' then "\\r"
  else if c.toNat < 0x20 then unitEscape c.toNat
  else if c.toNat < 0x7F ∨ charset = .unicode then String.singleton c
  else if c.toNat < 0x10000 then unitEscape c.toNat
  else
    let n := c.toNat - 0x10000
    unitEscape (0xD800 + n / 1024) ++ unitEscape (0xDC00 + n % 1024)

/-- a text between quotes, behind `acc` -/
def quotedOnto (charset : Charset) (acc s : String) : String :=
  (s.toList.foldl (fun acc c => acc ++ escaped charset c) (acc.push '"')).push '"'

/-- ten to a power, as the exponent part of a number -/
def exponentText (e : Int) : String := if e = 0 then ".0" else "e" ++ toString e

mutual

/-- the text of a value, behind `acc` -/
def renderOnto (charset : Charset) (acc : String) : Json → String
  | .null => acc ++ "null"
  | .bool b => acc ++ (if b then "true" else "false")
  | .int n => acc ++ toString n
  | .decimal m e => acc ++ toString m ++ exponentText e
  | .str s => quotedOnto charset acc s
  | .arr items => (itemsOnto charset (acc.push '[') items).push ']'
  | .obj members => (membersOnto charset (acc.push '\x7b') members).push '\x7d'

def itemsOnto (charset : Charset) (acc : String) : List Json → String
  | [] => acc
  | [v] => renderOnto charset acc v
  | v :: rest => itemsOnto charset ((renderOnto charset acc v).push ',') rest

def membersOnto (charset : Charset) (acc : String) : List (String × Json) → String
  | [] => acc
  | [(k, v)] => renderOnto charset ((quotedOnto charset acc k).push ':') v
  | (k, v) :: rest =>
    membersOnto charset ((renderOnto charset ((quotedOnto charset acc k).push ':') v).push ',') rest

end

def renderWith (charset : Charset) (j : Json) : String := j.renderOnto charset ""

def render (j : Json) : String := j.renderWith .ascii

end Json

end StepRunner
