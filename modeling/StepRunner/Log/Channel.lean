import StepRunner.Log.Line

/-!
# The log channel

Log lines travel to their reader through a queue with limited room, in the order they were sent.
Once the reader is gone, lines vanish.

* `Channel.canSend`     whether a sender need not wait
* `Channel.send`        puts a line at the end
* `Channel.receive?`    the reader takes the line at the front
* `Channel.delivered`   all lines that reached the reader or are under way to it
* `Channel.received`    those that reached it
-/

namespace StepRunner

/-- the queue between the senders of log lines and their reader -/
structure Channel where
  room : Nat
  /-- whether there is a reader -/
  isOpen : Bool := true
  /-- all lines that were sent to the reader, the newest first -/
  sent : List LogLine := []
  /-- how many of them are under way; the reader takes the oldest of these next -/
  underWay : Nat := 0

namespace Channel

def canSend (c : Channel) : Bool := !c.isOpen || c.underWay < c.room

/-- puts a line at the end; without a reader it vanishes -/
def send (c : Channel) (line : LogLine) : Channel :=
  if c.isOpen then { c with sent := line :: c.sent, underWay := c.underWay + 1 } else c

def receive? (c : Channel) : Option Channel :=
  match c.underWay with
  | 0 => none
  | n + 1 => some { c with underWay := n }

/-- all lines that reached the reader or are under way to it, in the order they were sent -/
def delivered (c : Channel) : List LogLine := c.sent.reverse

/-- the lines that reached the reader, in the order they were sent -/
def received (c : Channel) : List LogLine := (c.sent.drop c.underWay).reverse

end Channel

end StepRunner
