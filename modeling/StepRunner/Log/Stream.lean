/-!
# Log streams

What a container's log stream delivers, read by read.  A stream follows its container: each read is
there from some time on, and so is the end.

* `ReadFailure`   a read that failed: its kind and its message
* `Read`          bytes or a failure; no bytes at all is an end, for the moment or for good
* `Stream`        the reads of a stream and its end, with their times
* `chunks`        bytes cut into reads of a fixed size
* `bufferSize`    bytes that one read of a log stream asks for
-/

namespace StepRunner.Log

structure ReadFailure where
  kind : String
  message : String
deriving DecidableEq, Repr

namespace ReadFailure

def text (f : ReadFailure) : String := f.kind ++ ": " ++ f.message

end ReadFailure

inductive Read where
  | data (bytes : List UInt8)
  | failure (f : ReadFailure)
deriving DecidableEq, Repr

/-- a read, and the time from which it is there -/
structure Arrival where
  read : Read
  time : Nat := 0
deriving DecidableEq, Repr

structure Stream where
  arrivals : List Arrival
  /-- the time from which the end is there -/
  closing : Nat := 0
deriving DecidableEq, Repr

namespace Stream

/-- a stream that keeps no one waiting -/
def ofReads (reads : List Read) : Stream := { arrivals := reads.map fun read => { read } }

def reads (s : Stream) : List Read := s.arrivals.map (·.read)

/-- the times of the reads, and at last that of the end -/
def times (s : Stream) : List Nat := s.arrivals.map (·.time) ++ [s.closing]

end Stream

def bufferSize : Nat := 8192

/-- the bytes cut into pieces of `size` bytes, the last one shorter; `fuel` bounds their number -/
def cut (size : Nat) : (fuel : Nat) → List UInt8 → List (List UInt8)
  | 0, _ => []
  | fuel + 1, bytes =>
    if bytes.isEmpty then []
    else bytes.take size :: cut size fuel (bytes.drop size)

/-- bytes cut into reads of at most `size` bytes, none of them empty -/
def chunks (size : Nat) (bytes : List UInt8) : List Read :=
  (cut (max size 1) bytes.length bytes).map .data

end StepRunner.Log
