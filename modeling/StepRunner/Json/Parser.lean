import StepRunner.Json.Number

/-!
# Reading JSON text

The grammar of the JSON standard over a list of characters, with two limits of its own: arrays and
objects may be nested 127 deep, and a number must not exceed the range of a double.  A value that
nobody wants is passed over by its grammar alone, without these limits.

* `Json.parse?`      the value that a whole text is
* `Json.readValue`   a value at the front of a text, and what follows it
* `Json.readText`    a text up to its closing quote
* `Json.skipValue`   what follows a value that is passed over
* `Json.skipText`    what follows the closing quote of a text that is passed over
-/

namespace StepRunner.Json

/-! ## characters -/

/-- the blanks between tokens -/
def isBlank (c : Char) : Bool := c = ' ' || c = '\n' || c = '\r' || c = '\t'

/-- the text after the blanks at its front -/
def skipBlanks (s : List Char) : List Char := s.dropWhile isBlank

def hexDigit? (c : Char) : Option Nat :=
  if '0' ≤ c ∧ c ≤ '9' then some (c.toNat - 48)
  else if 'a' ≤ c ∧ c ≤ 'f' then some (c.toNat - 87)
  else if 'A' ≤ c ∧ c ≤ 'F' then some (c.toNat - 55)
  else none

def hexUnit? (a b c d : Char) : Option Nat := do
  return 4096 * (← hexDigit? a) + 256 * (← hexDigit? b) + 16 * (← hexDigit? c) + (← hexDigit? d)

/-- the character that an escape of one letter stands for -/
def shortEscape? : Char → Option Char
  | '"' => some '"'
  | '\\' => some '\\'
  | '/' => some '/'
  | 'b' => some '\x08'
  | 'f' => some '\x0c'
  | 'n' => some '\n'
  | 'r' => some '\r'
  | 't' => some '\t'
  | _ => none

/-- whether a unit is the first half of a pair -/
def isHighHalf (u : Nat) : Bool := 0xD800 ≤ u && u < 0xDC00

/-- whether a unit is the second half of a pair -/
def isLowHalf (u : Nat) : Bool := 0xDC00 ≤ u && u < 0xE000

def joinHalves (high low : Nat) : Char :=
  Char.ofNat (0x10000 + (high - 0xD800) * 1024 + (low - 0xDC00))

/-- A text up to its closing quote, `acc` being what was read so far, the last character first.
A half without its partner, and a control character, are refused. -/
def readText (acc : List Char) : List Char → Option (String × List Char)
  | '"' :: rest => some (String.ofList acc.reverse, rest)
  | '\\' :: 'u' :: a :: b :: c :: d :: '\\' :: 'u' :: a' :: b' :: c' :: d' :: rest =>
    match hexUnit? a b c d with
    | none => none
    | some u =>
      if isHighHalf u then
        match hexUnit? a' b' c' d' with
        | none => none
        | some v => if isLowHalf v then readText (joinHalves u v :: acc) rest else none
      else if isLowHalf u then none
      else readText (Char.ofNat u :: acc) ('\\' :: 'u' :: a' :: b' :: c' :: d' :: rest)
  | '\\' :: 'u' :: a :: b :: c :: d :: rest =>
    match hexUnit? a b c d with
    | none => none
    | some u =>
      if isHighHalf u || isLowHalf u then none else readText (Char.ofNat u :: acc) rest
  | '\\' :: e :: rest =>
    match shortEscape? e with
    | none => none
    | some c => readText (c :: acc) rest
  | c :: rest => if c.toNat < 0x20 || c = '\\' then none else readText (c :: acc) rest
  | [] => none

/-- What follows the closing quote of a text.  Its escapes must be written well, but halves need no
partner, as nobody asks for the characters that they stand for. -/
def skipText : List Char → Option (List Char)
  | '"' :: rest => some rest
  | '\\' :: 'u' :: a :: b :: c :: d :: rest =>
    if (hexUnit? a b c d).isSome then skipText rest else none
  | '\\' :: e :: rest => if (shortEscape? e).isSome then skipText rest else none
  | c :: rest => if c.toNat < 0x20 || c = '\\' then none else skipText rest
  | [] => none

/-! ## values -/

/-- what a reader of values answers: the value and the text after it -/
abbrev Answer := Option (Json × List Char)

mutual

/-- A value at the front.  `fuel` bounds the tokens left, `depth` the arrays and objects that may
still be opened. -/
def readValue : (fuel depth : Nat) → List Char → Answer
  | 0, _, _ => none
  | fuel + 1, depth, s =>
    match skipBlanks s with
    | 'n' :: 'u' :: 'l' :: 'l' :: rest => some (.null, rest)
    | 't' :: 'r' :: 'u' :: 'e' :: rest => some (.bool true, rest)
    | 'f' :: 'a' :: 'l' :: 's' :: 'e' :: rest => some (.bool false, rest)
    | '"' :: rest => (readText [] rest).map fun (t, rest) => (.str t, rest)
    | '[' :: rest =>
      if depth ≤ 1 then none
      else match skipBlanks rest with
        | ']' :: rest => some (.arr [], rest)
        | rest => readItems fuel (depth - 1) #[] rest
    | '\x7b' :: rest =>
      if depth ≤ 1 then none
      else match skipBlanks rest with
        | '\x7d' :: rest => some (.obj [], rest)
        | rest => readMembers fuel (depth - 1) #[] rest
    | rest => readNumber rest

/-- the items of an array from one item on, `acc` being those before it -/
def readItems : (fuel depth : Nat) → Array Json → List Char → Answer
  | 0, _, _, _ => none
  | fuel + 1, depth, acc, s =>
    match readValue fuel depth s with
    | none => none
    | some (v, rest) =>
      match skipBlanks rest with
      | ',' :: rest => readItems fuel depth (acc.push v) rest
      | ']' :: rest => some (.arr (acc.push v).toList, rest)
      | _ => none

/-- the members of an object from one member on, `acc` being those before it -/
def readMembers : (fuel depth : Nat) → Array (String × Json) → List Char → Answer
  | 0, _, _, _ => none
  | fuel + 1, depth, acc, s =>
    match skipBlanks s with
    | '"' :: rest =>
      match readText [] rest with
      | none => none
      | some (name, rest) =>
        match skipBlanks rest with
        | ':' :: rest =>
          match readValue fuel depth rest with
          | none => none
          | some (v, rest) =>
            match skipBlanks rest with
            | ',' :: rest => readMembers fuel depth (acc.push (name, v)) rest
            | '\x7d' :: rest => some (.obj (acc.push (name, v)).toList, rest)
            | _ => none
        | _ => none
    | _ => none

end

/-! ## values that are passed over -/

/-- an array or object whose end is yet to come -/
inductive Enclosure where
  | array
  | object
deriving DecidableEq, Repr

/-- what has to come next -/
inductive Awaited where
  | value
  /-- an item of an array just opened, or its end -/
  | firstItem
  /-- a name with its colon -/
  | name
  /-- a name of an object just opened, or its end -/
  | firstName
  /-- what stands behind a value: a comma, or the end of what encloses it -/
  | follower
deriving DecidableEq, Repr

/-- what a comma announces -/
def Enclosure.next : Enclosure → Awaited
  | .array => .value
  | .object => .name

/-- what follows a name and its colon -/
def skipName (s : List Char) : Option (List Char) :=
  match skipBlanks s with
  | '"' :: rest =>
    match (skipText rest).map skipBlanks with
    | some (':' :: rest) => some rest
    | _ => none
  | _ => none

/-- what follows a value that is neither array nor object -/
def skipPlain : List Char → Option (List Char)
  | 'n' :: 'u' :: 'l' :: 'l' :: rest => some rest
  | 't' :: 'r' :: 'u' :: 'e' :: rest => some rest
  | 'f' :: 'a' :: 'l' :: 's' :: 'e' :: rest => some rest
  | '"' :: rest => skipText rest
  | s => (NumberText.read? s).map (·.2)

/-- What follows a value, given what has to come next and what is still open, the innermost first.
`fuel` bounds the steps left. -/
def skipFrom : (fuel : Nat) → Awaited → List Enclosure → List Char → Option (List Char)
  | 0, _, _, _ => none
  | fuel + 1, .value, opened, s =>
    match skipBlanks s with
    | '[' :: rest => skipFrom fuel .firstItem (.array :: opened) rest
    | '\x7b' :: rest => skipFrom fuel .firstName (.object :: opened) rest
    | s =>
      match skipPlain s with
      | none => none
      | some rest => skipFrom fuel .follower opened rest
  | fuel + 1, .firstItem, opened, s =>
    match skipBlanks s with
    | ']' :: rest => skipFrom fuel .follower opened.tail rest
    | s => skipFrom fuel .value opened s
  | fuel + 1, .name, opened, s =>
    match skipName s with
    | none => none
    | some rest => skipFrom fuel .value opened rest
  | fuel + 1, .firstName, opened, s =>
    match skipBlanks s with
    | '\x7d' :: rest => skipFrom fuel .follower opened.tail rest
    | s => skipFrom fuel .name opened s
  | _ + 1, .follower, [], s => some s
  | fuel + 1, .follower, inner :: outer, s =>
    match inner, skipBlanks s with
    | inner, ',' :: rest => skipFrom fuel inner.next (inner :: outer) rest
    | .array, ']' :: rest => skipFrom fuel .follower outer rest
    | .object, '\x7d' :: rest => skipFrom fuel .follower outer rest
    | _, _ => none

/-- What follows a value at the front.  Twice the length of the text is fuel enough: of the steps
that take no character each follows a bracket, the last one apart. -/
def skipValue (fuel : Nat) (s : List Char) : Option (List Char) := skipFrom fuel .value [] s

/-! ## whole texts -/

/-- The value that a whole text is.  Each token takes a character at least, and no token is
followed by more than two readers, so twice the length is fuel enough. -/
def parse? (text : String) : Option Json :=
  let s := text.toList
  match readValue (2 * s.length + 2) 128 s with
  | some (v, rest) => if (skipBlanks rest).isEmpty then some v else none
  | none => none

end StepRunner.Json
