/-!
# Limits

The fixed numbers and names of the runner, gathered in one place.

* `pollInterval`      pause between two looks at a pod, in milliseconds
* `maxPolls`          looks a single wait may take
* `maxLineBytes`      bytes kept of one log line
* `cutMark`           text appended to a line that was cut
* `channelCapacity`   log lines that may be under way to the reader
* `maxChannelRoom`    the most lines that any channel has room for
* `longestPause`      the longest pause there is, in milliseconds
* `stepContainer`     name of the container that runs a step's commands
-/

namespace StepRunner.Limits

def pollInterval : Nat := 100

/-- looks a single wait may take: an hour at the usual interval -/
def maxPolls : Nat := 36000

def maxLineBytes : Nat := 65536

/-- text appended to a line that was cut at `maxLineBytes` -/
def cutMark : String := "...[truncated]"

def channelCapacity : Nat := 1000

/-- the most lines that any channel has room for: three of 64 bits are kept for flags -/
def maxChannelRoom : Nat := 2305843009213693951

/-- the longest pause there is, in milliseconds: thirty years of 365 days -/
def longestPause : Nat := 946080000000

def stepContainer : String := "step"

end StepRunner.Limits
