import StepRunner.Cluster.Platform
import StepRunner.Limits
import StepRunner.Log.Channel
import StepRunner.Log.Warning

/-!
# What runs share

The clock, the platform, the log channel and the cancellation token that all runs of a stage act on,
and a record of what they did.

* `CallRecord`    a call on a platform: when, on which pod, how it went
* `wakeTime`      when a pause ends
* `Timer`         a call that is yet to be made, or is under way
* `World σ`       clock, platform state, channel, token, record
-/

namespace StepRunner

/-! ## the record -/

inductive CallEvent where
  | created (ok : Bool)
  | fetched (ok : Bool)
  /-- the log stream of a container was asked for -/
  | opened (container : String)
  | deleted (ok : Bool)
deriving DecidableEq, Repr

structure CallRecord where
  time : Nat
  pod : PodRef
  event : CallEvent
deriving DecidableEq, Repr

/-! ## calls and time -/

/-- when a pause ends that begins now; longer than the longest pause there is none -/
def wakeTime (now pause : Nat) : Nat := now + min pause Limits.longestPause

structure Timer where
  /-- before this time nothing happens -/
  wake : Nat
  /-- whether the call is under way -/
  asked : Bool := false
deriving DecidableEq, Repr

/-- what a timer comes to at some moment -/
inductive Timer.Turn where
  /-- it is not time yet -/
  | wait
  /-- the call is made and will have its effect later -/
  | ask (t : Timer)
  /-- the call has its effect -/
  | go

/-- what a timer comes to now, for a call that takes `delay` -/
def Timer.turn (t : Timer) (now delay : Nat) : Timer.Turn :=
  if now < t.wake then .wait
  else if t.asked then .go
  else .ask ⟨wakeTime now delay, true⟩

/-! ## the shared state -/

structure World (σ : Type) where
  state : σ
  now : Nat := 0
  channel : Channel := { room := 1 }
  /-- whether the token has fired -/
  cancelled : Bool := false
  /-- when the token is going to fire -/
  cancelAt : Option Nat := none
  /-- the calls that have had their effect, the newest first -/
  calls : List CallRecord := []
  warnings : Array Warning := #[]

namespace World

variable {σ : Type}

/-- the world after a pause in which nothing else happens -/
def pause (w : World σ) (length : Nat) : World σ := { w with now := wakeTime w.now length }

def warn (w : World σ) (warnings : List Warning) : World σ :=
  { w with warnings := w.warnings ++ warnings }

/-- the world after a call that left the platform in `state` -/
def after (w : World σ) (state : σ) (pod : PodRef) (event : CallEvent) : World σ :=
  { w with state, calls := ⟨w.now, pod, event⟩ :: w.calls }

def send (w : World σ) (line : LogLine) : World σ := { w with channel := w.channel.send line }

def fetch (w : World σ) (platform : Platform σ) (pod : PodRef) :
    Except ClusterError PodSnapshot × World σ :=
  let (answer, state) := platform.fetch pod w.state
  (answer, w.after state pod (.fetched answer.isOk))

end World

end StepRunner
