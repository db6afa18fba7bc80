/-!
# Repairing UTF-8

Bytes become text one byte at a time.  Where the bytes are no UTF-8, each longest piece that starts
a character without completing it becomes one replacement character, and so does each byte that can
start none.

* `Utf8.State`        between characters, or within one that still lacks bytes
* `Utf8.feed`         one byte: the next state and the characters completed by it
* `Utf8.repair`       the text of a byte string
-/

namespace StepRunner.Text.Utf8

/-- where a decoder stands between two bytes -/
inductive State where
  /-- no character is under way -/
  | between
  /-- `more` bytes are missing, the next one from `lo` to `hi`; `bits` are those read so far -/
  | within (more lo hi bits : Nat)
deriving DecidableEq, Repr

/-- the character that stands for bytes which are no text -/
def gap : Char := '\uFFFD'

/-- the state after a byte above ASCII that can start a character -/
def lead? (b : Nat) : Option State :=
  if 0xC2 ≤ b ∧ b ≤ 0xDF then some (.within 1 0x80 0xBF (b - 0xC0))
  else if b = 0xE0 then some (.within 2 0xA0 0xBF 0)
  else if b = 0xED then some (.within 2 0x80 0x9F 13)
  else if 0xE1 ≤ b ∧ b ≤ 0xEF then some (.within 2 0x80 0xBF (b - 0xE0))
  else if b = 0xF0 then some (.within 3 0x90 0xBF 0)
  else if 0xF1 ≤ b ∧ b ≤ 0xF3 then some (.within 3 0x80 0xBF (b - 0xF0))
  else if b = 0xF4 then some (.within 3 0x80 0x8F 4)
  else none

/-- a byte that does not continue a character -/
def start (b : Nat) : State × List Char :=
  if b < 0x80 then (.between, [Char.ofNat b])
  else match lead? b with
    | some s => (s, [])
    | none => (.between, [gap])

def feed : State → UInt8 → State × List Char
  | .between, b => start b.toNat
  | .within more lo hi bits, b =>
    if lo ≤ b.toNat ∧ b.toNat ≤ hi then
      let bits := bits * 64 + (b.toNat - 0x80)
      if more ≤ 1 then (.between, [Char.ofNat bits])
      else (.within (more - 1) 0x80 0xBF bits, [])
    else
      let next := start b.toNat
      (next.1, gap :: next.2)

/-- the characters owed at the end of the bytes -/
def close : State → List Char
  | .between => []
  | .within .. => [gap]

/-- the state after some bytes and the text completed by them, `text` being what was there before -/
def run (s : State) (text : String) (bytes : List UInt8) : State × String :=
  bytes.foldl (fun acc b => let next := feed acc.1 b; (next.1, next.2.foldl String.push acc.2))
    (s, text)

def repair (bytes : List UInt8) : String :=
  let last := run .between "" bytes
  (close last.1).foldl String.push last.2

def encode (s : String) : List UInt8 := s.toUTF8.data.toList

/-- the text of a byte string that is UTF-8 throughout -/
def decode? (bytes : List UInt8) : Option String :=
  let b : ByteArray := ⟨bytes.toArray⟩
  if h : b.IsValidUTF8 then some (String.ofByteArray b h) else none

end StepRunner.Text.Utf8
