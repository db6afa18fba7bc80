import StepRunner.Limits
import StepRunner.Log.Channel
import StepRunner.Run.Error
import StepRunner.Text.Sanitize

/-!
# Configuration

* `FailurePolicy`     what the failure of a step means for its siblings
* `Config`            how runs wait, stream logs and judge
* `Config.fault?`     the first value that would stall a run or make it spin
* `Config.logChannel?`   the log channel, if there is one of that size
-/

namespace StepRunner

inductive FailurePolicy where
  /-- nothing: every step runs to its end -/
  | runToCompletion
  /-- the other steps are cancelled -/
  | cancelSiblings
deriving DecidableEq, Repr

structure Config where
  /-- pause between two looks at a pod, in milliseconds -/
  pollInterval : UInt64 := Limits.pollInterval.toUInt64
  /-- looks a single wait may take -/
  maxPolls : UInt32 := Limits.maxPolls.toUInt32
  /-- transforms of every log line -/
  sanitize : Text.SanitizeOptions := .all
  /-- log lines that may be under way to the reader -/
  channelCapacity : UInt64 := Limits.channelCapacity.toUInt64
  failurePolicy : FailurePolicy := .runToCompletion
  /-- whether a container that ends with a code other than zero fails its step -/
  checkExitCodes : Bool := true
deriving DecidableEq, Repr, Inhabited

namespace Config

def fault? (c : Config) : Option RunError :=
  if c.pollInterval = 0 then some (.invalidConfig "poll_interval_ms must be greater than 0")
  else if c.maxPolls = 0 then some (.invalidConfig "max_polls must be greater than 0")
  else if c.channelCapacity = 0 then
    some (.invalidConfig "log_channel_capacity must be greater than 0")
  else none

/-- the looks a single wait takes at most: one at least -/
def pollLimit (c : Config) : Nat := max 1 c.maxPolls.toNat

/-- the room of the log channel: one line at least -/
def channelRoom (c : Config) : Nat := max 1 c.channelCapacity.toNat

/-- the log channel, unless it would be larger than any channel is -/
def logChannel? (c : Config) : Option Channel :=
  if c.channelRoom ≤ Limits.maxChannelRoom then some { room := c.channelRoom } else none

end Config

end StepRunner
