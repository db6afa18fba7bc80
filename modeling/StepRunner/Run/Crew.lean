import StepRunner.Run.Step

/-!
# Runs side by side

The runs of a stage, their log tasks, the reader of the logs and the one who fires the token are
actors on one world.  Any actor that can make a step may make it; when none can, the clock moves on
to the next time that one waits for.

`Crew.turn` is one fair choice among these: an actor goes on until it can make no step, and then the
one that has waited longest and can make a step is next.

* `Actor`          who can make a step
* `Crew σ`         runs, world, and the order in which actors have waited
* `Crew.act`       one step of one actor, if it can make one
* `Crew.tick`      the clock moves on
* `Crew.turn`      the next step of the fair choice
* `Crew.finish`    steps until all runs are over
-/

namespace StepRunner

inductive Actor where
  | run (index : Nat)
  | logTask (index id : Nat)
  /-- the reader of the log channel -/
  | reader
  /-- who fires the token -/
  | canceller
deriving DecidableEq, Repr

structure Crew (σ : Type) where
  runs : List Run
  world : World σ
  /-- whether the runs are steps of a stage, and then what the failure of one means -/
  policy : Option FailurePolicy := none
  /-- the actor whose turn it is -/
  current : Option Actor := none
  /-- the others, the one that has waited longest first -/
  waiting : List Actor

namespace Crew

variable {σ : Type}

/-- the actors of `n` runs before their first step -/
def actors (n : Nat) : List Actor := .reader :: .canceller :: (List.range n).map .run

/-- runs before their first step -/
def ofRuns (runs : List Run) (world : World σ) (policy : Option FailurePolicy) : Crew σ :=
  { runs, world, policy, waiting := actors runs.length }

/-! ## single steps -/

/-- what the end of a step means for its stage: a failure is reported, and cancels the siblings if
that is the policy -/
def settle (policy : Option FailurePolicy) (r : Run) (w : World σ) : World σ :=
  match policy, r.error? with
  | some policy, some e =>
    if e.isCancelled then w
    else
      let w := w.warn [.stepFailed]
      if policy = .cancelSiblings then { w with cancelled := true } else w
  | _, _ => w

/-- the log tasks that a step of run `index` has started -/
def newTasks (index : Nat) (before after : Run) : List Actor :=
  (List.range (after.started - before.started)).map fun k => .logTask index (before.started + k)

def act (setup : Setup σ) (a : Actor) (c : Crew σ) : Option (Crew σ) :=
  match a with
  | .run index =>
    match c.runs[index]? with
    | none => none
    | some r =>
      match r.act setup c.world with
      | none => none
      | some (r', w) =>
        some { c with
          runs := c.runs.set index r'
          world := settle c.policy r' w
          waiting := c.waiting ++ newTasks index r r' }
  | .logTask index id =>
    match c.runs[index]? with
    | none => none
    | some r =>
      match r.actTask setup id c.world with
      | none => none
      | some (r', world) => some { c with runs := c.runs.set index r', world }
  | .reader =>
    match c.world.channel.receive? with
    | none => none
    | some channel => some { c with world := { c.world with channel } }
  | .canceller =>
    match c.world.cancelAt with
    | none => none
    | some time =>
      if time ≤ c.world.now then
        some { c with world := { c.world with cancelled := true, cancelAt := none } }
      else none

/-- the times that actors wait for -/
def wakes (c : Crew σ) : List Nat :=
  c.world.cancelAt.toList ++
    c.runs.flatMap fun r => r.wake?.toList ++ r.tasks.filterMap (·.wake?)

/-- the clock moves on to the next time that an actor waits for -/
def tick (c : Crew σ) : Option (Crew σ) :=
  match (c.wakes.filter (c.world.now < ·)).min? with
  | some now => some { c with world := { c.world with now } }
  | none => none

def isOver (c : Crew σ) : Bool := c.runs.all (·.isOver)

/-! ## a fair choice -/

/-- the first of `candidates` that can make a step, and that step -/
def firstAble (setup : Setup σ) (c : Crew σ) : List Actor → Option (Actor × Crew σ)
  | [] => none
  | a :: rest =>
    match c.act setup a with
    | some c' => some (a, c')
    | none => firstAble setup c rest

/-- the next step: of the current actor, or else of the one that has waited longest and can make
one, or else of the clock -/
def turn (setup : Setup σ) (c : Crew σ) : Option (Crew σ) :=
  match c.current with
  | some a =>
    match c.act setup a with
    | some c' => some c'
    | none => some { c with current := none, waiting := c.waiting ++ [a] }
  | none =>
    match firstAble setup c c.waiting with
    | some (a, c') => some { c' with current := some a, waiting := c'.waiting.erase a }
    | none => c.tick

/-- steps until all runs are over, `fuel` at most -/
def finish (setup : Setup σ) : (fuel : Nat) → Crew σ → Crew σ
  | 0, c => c
  | fuel + 1, c =>
    if c.isOver then c
    else match c.turn setup with
      | none => c
      | some c' => finish setup fuel c'

end Crew

end StepRunner
