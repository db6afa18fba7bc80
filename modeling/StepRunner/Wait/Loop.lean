import StepRunner.Run.World
import StepRunner.Wait.Watch

/-!
# Waiting for the next container

* `Watch.await`    looks at the pod until a wait ends
-/

namespace StepRunner.Watch

variable {σ : Type}

/-- looks until the wait ends, after `polls` looks came to nothing; `left` more are allowed -/
def awaitFrom (platform : Platform σ) (interval : Nat) :
    (left polls : Nat) → Watch → World σ → Outcome × Watch × World σ
  | 0, polls, w, world => (.error (.pollLimitExceeded w.pod.text w.goal polls), w, world)
  | left + 1, polls, w, world =>
    let world := world.pause (platform.delay .fetch w.pod world.state)
    let (answer, world) := world.fetch platform w.pod
    match w.answer polls answer with
    | (w, some outcome, warnings) => (outcome, w, world.warn warnings)
    | (w, none, warnings) =>
      let world := world.warn warnings
      awaitFrom platform interval left (polls + 1) w (world.pause interval)

/-- Waits for the next container that reaches the goal, with a pause of `interval` between two
looks.  Where no container is left, no look is taken. -/
def await (platform : Platform σ) (interval : Nat) (w : Watch) (world : World σ) :
    Outcome × Watch × World σ :=
  if w.remaining then awaitFrom platform interval w.limit 0 w world
  else (.error w.nothingLeft, w, world)

end StepRunner.Watch
