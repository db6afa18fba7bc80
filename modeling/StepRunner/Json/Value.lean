import StepRunner.Data.Dict

/-!
# JSON values

A value of the JSON data model, and the pieces from which readers of typed values are put together.
A reader answers `none` where the value has the wrong shape; a field that no reader asks for is
passed over.

* `Json`                the values; a number written with a fraction or an exponent is no integer
* `Fields`              the members of an object
* `Fields.required`     a field that must be there
* `Fields.optional`     a field that may be missing or null
* `Fields.defaulted`    a field that may be missing, and is then read as a fixed value
* `Json.unsigned?`, `Json.int32?`, ...   readers of the plain types
-/

namespace StepRunner

/-- a value of the JSON data model -/
inductive Json where
  | null
  | bool (b : Bool)
  /-- a number written as digits only, with or without a minus sign -/
  | int (n : Int)
  /-- a number written with a fraction or an exponent: `mantissa * 10 ^ exponent` -/
  | decimal (mantissa exponent : Int)
  | str (s : String)
  | arr (items : List Json)
  | obj (members : List (String × Json))
deriving Inhabited

/-- the members of an object, in the order they are written -/
structure Fields where
  members : List (String × Json)

namespace Fields

/-- the value of the last member called `name` -/
def get? (f : Fields) (name : String) : Option Json :=
  Dict.find? name f.members.reverse

def required {α : Type} (f : Fields) (name : String) (read : Json → Option α) : Option α :=
  (f.get? name).bind read

def optional {α : Type} (f : Fields) (name : String) (read : Json → Option α) :
    Option (Option α) :=
  match f.get? name with
  | none => some none
  | some .null => some none
  | some j => (read j).map some

/-- a field that may be missing, and is then `value`; null is not missing -/
def defaulted {α : Type} (f : Fields) (name : String) (value : α) (read : Json → Option α) :
    Option α :=
  match f.get? name with
  | none => some value
  | some j => read j

end Fields

namespace Json

/-! ## readers of the plain types -/

def object? : Json → Option Fields
  | .obj members => some ⟨members⟩
  | _ => none

def bool? : Json → Option Bool
  | .bool b => some b
  | _ => none

def string? : Json → Option String
  | .str s => some s
  | _ => none

def int? : Json → Option Int
  | .int n => some n
  | _ => none

/-- an integer from 0 to below `bound` -/
def below? (bound : Nat) : Json → Option Nat
  | .int (.ofNat n) => if n < bound then some n else none
  | _ => none

def uint32? (j : Json) : Option UInt32 := (j.below? UInt32.size).map UInt32.ofNat

def uint64? (j : Json) : Option UInt64 := (j.below? UInt64.size).map UInt64.ofNat

def int32? : Json → Option Int32
  | .int n => if -2147483648 ≤ n ∧ n < 2147483648 then some (Int32.ofInt n) else none
  | _ => none

def list? {α : Type} (read : Json → Option α) : Json → Option (List α)
  | .arr items => items.mapM read
  | _ => none

/-- an object whose values all read; of members with one name the last counts -/
def dict? {α : Type} (read : Json → Option α) : Json → Option (Dict α)
  | .obj members => (members.mapM fun m => (read m.2).map fun a => (m.1, a)).map Dict.ofList
  | _ => none

/-! ## writers of the plain types -/

/-- null stands for a value that is not there -/
def ofOption {α : Type} (write : α → Json) : Option α → Json
  | none => .null
  | some a => write a

def ofList {α : Type} (write : α → Json) (l : List α) : Json := .arr (l.map write)

def ofDict {α : Type} (write : α → Json) (d : Dict α) : Json :=
  .obj (d.entries.map fun e => (e.1, write e.2))

def ofNat (n : Nat) : Json := .int n

end Json

end StepRunner
