/-!
# Terminal escape sequences

An escape sequence starts with ESC and is one of four kinds, tried in this order:

* a control sequence: `[`, parameter bytes, intermediate bytes, one final byte;
* an operating system command: `]`, bytes other than BEL and ESC, then BEL or ESC and a backslash;
* a control string: one of `P X ^ _`, bytes other than ESC, then ESC and a backslash;
* a short escape: one byte from `0` to `~`.

* `Escape.length?`   bytes of the sequence that follow an ESC
* `Escape.strip`     the bytes outside the sequences, taken from left to right
* `Escape.occurs`    whether there is a sequence at all
-/

namespace StepRunner.Text.Escape

/-! ## bytes -/

def esc : UInt8 := 0x1B
def bel : UInt8 := 0x07
def backslash : UInt8 := 0x5C

def isParameter (b : UInt8) : Bool := 0x30 ≤ b && b ≤ 0x3F

def isIntermediate (b : UInt8) : Bool := 0x20 ≤ b && b ≤ 0x2F

def isFinal (b : UInt8) : Bool := 0x40 ≤ b && b ≤ 0x7E

def isShort (b : UInt8) : Bool := 0x30 ≤ b && b ≤ 0x7E

def opensString (b : UInt8) : Bool := b = 0x50 || b = 0x58 || b = 0x5E || b = 0x5F

/-! ## sequences -/

/-- bytes of a control sequence after its `[` -/
def control? (s : List UInt8) : Option Nat :=
  let parameters := s.takeWhile isParameter
  let s := s.dropWhile isParameter
  let intermediates := s.takeWhile isIntermediate
  match s.dropWhile isIntermediate with
  | b :: _ => if isFinal b then some (parameters.length + intermediates.length + 1) else none
  | [] => none

/-- bytes of an operating system command after its `]` -/
def command? (s : List UInt8) : Option Nat :=
  let inner (b : UInt8) : Bool := b != bel && b != esc
  let text := s.takeWhile inner
  match s.dropWhile inner with
  | b :: rest =>
    if b = bel then some (text.length + 1)
    else if rest.head? = some backslash then some (text.length + 2)
    else none
  | [] => none

/-- bytes of a control string after its opening byte -/
def string? (s : List UInt8) : Option Nat :=
  let inner (b : UInt8) : Bool := b != esc
  let text := s.takeWhile inner
  match s.dropWhile inner with
  | _ :: rest => if rest.head? = some backslash then some (text.length + 2) else none
  | [] => none

/-- bytes of the sequence that follow an ESC, given all bytes that follow it -/
def length? : List UInt8 → Option Nat
  | [] => none
  | b :: rest =>
    let long :=
      if b = 0x5B then control? rest
      else if b = 0x5D then command? rest
      else if opensString b then string? rest
      else none
    match long with
    | some n => some (n + 1)
    | none => if isShort b then some 1 else none

/-! ## stripping -/

/-- appends the bytes outside the sequences to `acc`, the first `skip` bytes being inside one -/
def stripOnto (acc : Array UInt8) : (skip : Nat) → List UInt8 → Array UInt8
  | _, [] => acc
  | skip + 1, _ :: rest => stripOnto acc skip rest
  | 0, b :: rest =>
    if b = esc then
      match length? rest with
      | some n => stripOnto acc n rest
      | none => stripOnto (acc.push b) 0 rest
    else stripOnto (acc.push b) 0 rest

def strip (s : List UInt8) : List UInt8 := (stripOnto #[] 0 s).toList

def occurs : List UInt8 → Bool
  | [] => false
  | b :: rest => (b = esc && (length? rest).isSome) || occurs rest

end StepRunner.Text.Escape
