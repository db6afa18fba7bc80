import StepRunner.Limits
import StepRunner.Log.Stream
import StepRunner.Log.Warning
import StepRunner.Text.Sanitize

/-!
# Scanning a log stream

A scanner turns the reads of a stream into sanitized lines, one at a time, keeping at most
`Limits.maxLineBytes` bytes of each.

Of a line that overwrites itself only the part after the last carriage return is wanted.  That part
is looked for read by read, so a progress bar of any length needs no more room than its last frame.
A carriage return at the very end of a read may belong to the line ending; it is kept until the next
byte tells.

* `LineBuffer`        the line under way: its bytes and whether some were dropped
* `LineBuffer.take`   the line with the bytes of one read
* `readLine`          the next physical line
* `lineTime`          when it is there
* `Scanner`           reads left, current line, lines so far
* `Scanner.advance`   moves to the next line
-/

namespace StepRunner.Log

open Text (SanitizeOptions cr lf)

/-! ## the line under way -/

structure LineBuffer where
  bytes : Array UInt8 := #[]
  cut : Bool := false
deriving DecidableEq, Repr

namespace LineBuffer

/-- the bytes before the last carriage return that more bytes of `chunk` follow are dropped; answers
the part kept, which starts with that carriage return, if there is one -/
def overwritten? (chunk : List UInt8) : Option (List UInt8) :=
  match chunk.reverse with
  | [] => none
  | last :: front =>
    let frame := front.takeWhile (· != cr)
    if frame.length = front.length then none
    else some (cr :: (frame.reverse ++ [last]))

/-- appends what there is room for -/
def append (b : LineBuffer) (chunk : List UInt8) : LineBuffer :=
  let room := Limits.maxLineBytes - b.bytes.size
  if room < chunk.length then ⟨b.bytes ++ chunk.take room, true⟩
  else { b with bytes := b.bytes ++ chunk }

/-- a carriage return held at the end of the buffer has overwritten what stands before it -/
def settle (b : LineBuffer) (chunk : List UInt8) : LineBuffer :=
  if !b.cut && !chunk.isEmpty && b.bytes.back? = some cr then { b with bytes := #[cr] } else b

/-- the line with the bytes of one read; `collapse` drops what carriage returns have overwritten -/
def take (collapse : Bool) (b : LineBuffer) (chunk : List UInt8) : LineBuffer :=
  if collapse then
    let b := b.settle chunk
    match overwritten? chunk with
    | some frame => append {} frame
    | none => b.append chunk
  else b.append chunk

/-- the line without the carriage return of its ending; a cut line has lost its ending -/
def finish (b : LineBuffer) : LineBuffer :=
  if !b.cut && b.bytes.back? = some cr then { b with bytes := b.bytes.pop } else b

end LineBuffer

/-! ## one physical line -/

/-- what a look for the next line finds -/
inductive Found where
  | line (b : LineBuffer)
  | ended
  | failed (f : ReadFailure)

/-- the bytes before the first line feed and those after it -/
def splitLine? (chunk : List UInt8) : Option (List UInt8 × List UInt8) :=
  let line := chunk.takeWhile (· != lf)
  match chunk.drop line.length with
  | [] => none
  | _ :: rest => some (line, rest)

/-- the next physical line and the reads left; `b` holds what was read of it, `begun` that this was
something -/
def readLine (collapse : Bool) (b : LineBuffer) (begun : Bool) : List Read → Found × List Read
  | [] => (if begun then .line b.finish else .ended, [])
  | .failure f :: reads => (.failed f, reads)
  | .data [] :: reads => (if begun then .line b.finish else .ended, reads)
  | .data (byte :: bytes) :: reads =>
    match splitLine? (byte :: bytes) with
    | none => readLine collapse (b.take collapse (byte :: bytes)) true reads
    | some (line, rest) =>
      (.line (b.take collapse line).finish, if rest.isEmpty then reads else .data rest :: reads)

/-- when all reads are there that a look for the next line goes through; `times` are the times of the
reads left and of the end -/
def lineTime : List Read → (times : List Nat) → Nat
  | [], times | .failure _ :: _, times => times.headD 0
  | .data bytes :: reads, times =>
    if bytes.isEmpty ∨ lf ∈ bytes then times.headD 0
    else max (times.headD 0) (lineTime reads times.tail)

/-! ## the scanner -/

structure Scanner where
  options : SanitizeOptions
  reads : List Read
  /-- the current line; empty before the first and after the last -/
  line : String := ""
  linesRead : Nat := 0
  finished : Bool := false
  failure : Option ReadFailure := none

namespace Scanner

def ofReads (options : SanitizeOptions) (reads : List Read) : Scanner := { options, reads }

/-- the sanitized text of a physical line, marked if it was cut -/
def lineText (options : SanitizeOptions) (b : LineBuffer) : String :=
  let text := Text.sanitize options b.bytes.toList
  if b.cut then text ++ Limits.cutMark else text

/-- moves to the next line; answers whether there is one, and what is to be warned of -/
def advance (s : Scanner) : Bool × Scanner × List Warning :=
  if s.finished then (false, s, [])
  else
    match readLine s.options.fromLastCR {} false s.reads with
    | (.line b, reads) =>
      (true, { s with reads, line := lineText s.options b, linesRead := s.linesRead + 1 },
        if b.cut then [.lineTruncated] else [])
    | (.ended, reads) => (false, { s with reads, line := "", finished := true }, [])
    | (.failed f, reads) =>
      (false, { s with reads, line := "", finished := true, failure := some f }, [.logReadFailed])

end Scanner

end StepRunner.Log
