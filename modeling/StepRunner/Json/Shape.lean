import StepRunner.Json.Parser

/-!
# Reading JSON text of a known shape

Whoever knows what a text should be need not look at the rest of it.  A shape says which values
pass; the reader takes what the shape names, refuses what has the wrong shape, and passes over the
members that the shape does not know, whose grammar alone must be right.

* `Shape`             what the text of a value may be
* `Shape.text`, `Shape.truth`, ...   the plain shapes
* `Shape.record`      an object whose members may be missing or null
* `Json.readAs`       a value of a shape at the front of a text
* `Json.parseAs?`     the value that a whole text is, if it has the shape
-/

namespace StepRunner

inductive Shape where
  /-- a value that passes a test -/
  | passing (accepts : Json → Bool)
  /-- null, or a value of this shape -/
  | optional (shape : Shape)
  | list (item : Shape)
  /-- An object.  A member of a known name has the shape of its field, any other one is passed over
  where `others` is `none`; `repeats` tells whether a known name may come again. -/
  | object (fields : List (String × Shape)) (others : Option Shape) (repeats : Bool)

namespace Shape

/-! ## plain shapes -/

def anything : Shape := .passing fun _ => true

def text : Shape := .passing (·.string?.isSome)

def truth : Shape := .passing (·.bool?.isSome)

def uint16 : Shape := .passing fun j => (j.below? UInt16.size).isSome

def uint32 : Shape := .passing (·.uint32?.isSome)

def int32 : Shape := .passing (·.int32?.isSome)

def int64 : Shape :=
  .passing fun j => j.int?.any fun n => -9223372036854775808 ≤ n && n < 9223372036854775808

def int32OrText : Shape := .passing fun j => j.int32?.isSome || j.string?.isSome

def oneOf (words : List String) : Shape := .passing fun j => j.string?.any (words.contains ·)

/-! ## objects -/

/-- any names, each with a value of this shape; of members with one name the last counts -/
def dict (value : Shape) : Shape := .object [] (some value) true

/-- Values of these shapes under these names, each of which may be missing or null.  Of members with
one name the last counts. -/
def record (fields : List (String × Shape)) : Shape :=
  .object (fields.map fun f => (f.1, .optional f.2)) none true

/-- values of these shapes under these names, each of which may be missing and comes but once -/
def once (fields : List (String × Shape)) : Shape := .object fields none false

def fieldsOf (shape : Shape) (names : List String) : List (String × Shape) :=
  names.map fun n => (n, shape)

/-- the shape of a member, if it is not passed over -/
def ofMember (fields : List (String × Shape)) (others : Option Shape) (name : String) :
    Option Shape :=
  match Dict.find? name fields with
  | some shape => some shape
  | none => others

end Shape

namespace Json

/-! ## the reader -/

/-- a name with its colon, and what follows -/
def readName (s : List Char) : Option (String × List Char) :=
  match skipBlanks s with
  | '"' :: rest =>
    match readText [] rest with
    | none => none
    | some (name, rest) =>
      match skipBlanks rest with
      | ':' :: rest => some (name, rest)
      | _ => none
  | _ => none

mutual

/-- A value of a shape at the front.  `fuel` bounds the tokens left, `depth` the arrays and objects
that may still be opened. -/
def readAs : (fuel depth : Nat) → Shape → List Char → Answer
  | 0, _, _, _ => none
  | fuel + 1, depth, .passing accepts, s =>
    match readValue fuel depth s with
    | some (v, rest) => if accepts v then some (v, rest) else none
    | none => none
  | fuel + 1, depth, .optional shape, s =>
    match skipBlanks s with
    | 'n' :: 'u' :: 'l' :: 'l' :: rest => some (.null, rest)
    | rest => readAs fuel depth shape rest
  | fuel + 1, depth, .list item, s =>
    match skipBlanks s with
    | '[' :: rest =>
      if depth ≤ 1 then none
      else match skipBlanks rest with
        | ']' :: rest => some (.arr [], rest)
        | rest => readItemsAs fuel (depth - 1) item #[] rest
    | _ => none
  | fuel + 1, depth, .object fields others repeats, s =>
    match skipBlanks s with
    | '\x7b' :: rest =>
      if depth ≤ 1 then none
      else match skipBlanks rest with
        | '\x7d' :: rest => some (.obj [], rest)
        | rest => readMembersAs fuel (depth - 1) (Shape.ofMember fields others) repeats #[] rest
    | _ => none

/-- the items of an array from one item on, `acc` being those before it -/
def readItemsAs : (fuel depth : Nat) → Shape → Array Json → List Char → Answer
  | 0, _, _, _, _ => none
  | fuel + 1, depth, item, acc, s =>
    match readAs fuel depth item s with
    | none => none
    | some (v, rest) =>
      match skipBlanks rest with
      | ',' :: rest => readItemsAs fuel depth item (acc.push v) rest
      | ']' :: rest => some (.arr (acc.push v).toList, rest)
      | _ => none

/-- The members of an object from one member on, `acc` being those before it that were not passed
over. -/
def readMembersAs : (fuel depth : Nat) → (shapeOf : String → Option Shape) → (repeats : Bool) →
    Array (String × Json) → List Char → Answer
  | 0, _, _, _, _, _ => none
  | fuel + 1, depth, shapeOf, repeats, acc, s =>
    match readName s with
    | none => none
    | some (name, rest) =>
      let member : Option (Array (String × Json) × List Char) :=
        match shapeOf name with
        | none => (skipValue fuel rest).map fun rest => (acc, rest)
        | some shape =>
          if !repeats && acc.any (·.1 = name) then none
          else (readAs fuel depth shape rest).map fun a => (acc.push (name, a.1), a.2)
      match member with
      | none => none
      | some (acc, rest) =>
        match skipBlanks rest with
        | ',' :: rest => readMembersAs fuel depth shapeOf repeats acc rest
        | '\x7d' :: rest => some (.obj acc.toList, rest)
        | _ => none

end

/-- The value that a whole text is, if it has the shape.  No token is followed by more than four
readers, so four times the length is fuel enough. -/
def parseAs? (shape : Shape) (text : String) : Option Json :=
  let s := text.toList
  match readAs (4 * s.length + 4) 128 shape s with
  | some (v, rest) => if (skipBlanks rest).isEmpty then some v else none
  | none => none

end Json

end StepRunner
