import StepRunner.Proofs.Run.Token

/-!
# The failure of a step and its siblings

Where the siblings of a step that fails are to be cancelled, a failure is an error that the step has
ended with; a step that its builder has broken off has not ended with an error, and nothing follows
from it for the others.

* `Run.fails`              a run that has ended with an error, and not as cancelled
* `Crew.Reacting`          a stage in which nothing but such a run fires the token
* `Reacting.play`          it stays one
* `play_withPolicy`        until then, all goes on as where the failure of a step means nothing
* `siblings_of_failure`    what becomes of the siblings then
-/

namespace StepRunner

variable {σ : Type}

namespace Run

variable {setup : Setup σ} {r r' : Run} {w w' : World σ}

theorem fails_iff : r.fails = true ↔ ∃ e, r.phase = .ended (some e) ∧ e.isCancelled = false := by
  unfold fails error?
  rw [Option.any_eq_true]
  constructor
  · rintro ⟨e, herror, hcancelled⟩
    split at herror
    next outcome hp =>
      rw [herror] at hp
      exact ⟨e, hp, by simpa using hcancelled⟩
    next => cases herror
  · rintro ⟨e, hp, hcancelled⟩
    exact ⟨e, by simp only [hp], by simpa using hcancelled⟩

theorem Transition.not_fails (ht : Transition setup r w r' w') : r.fails = false := by
  have hphase {phase : Phase} (hp : r.phase = phase) (hne : ∀ outcome, phase ≠ .ended outcome) :
      r.fails = false := by
    unfold fails error?
    rw [hp]
    split
    next outcome => exact absurd rfl (hne outcome)
    next => rfl
  cases ht with
  | cancelledEarly hp | buildPanicked hp | buildRefused hp | built hp | createRefused hp
  | created hp | streamingLook hp | streamingAgain hp | announced hp | joinedPanicked hp
  | joined hp | joinedAll hp | finishingLook hp | finishingAgain hp | deleteRefused hp
  | deleted hp => exact hphase hp (by simp)
  | asked hp =>
    unfold call? at hp
    unfold fails error?
    split at hp <;> simp_all
  | cancelled hp =>
    unfold inHand? at hp
    unfold fails error?
    split at hp <;> simp_all

end Run

namespace Crew

variable {setup : Setup σ} {c c' : Crew σ} {i k : Nat} {m : Move} {moves : List Move}
  {r r' : Run}

/-! ## when the token fires -/

theorem any_fails_set (hr : c.runs[k]? = some r) (hkeep : r.fails = true → r'.fails = true) :
    (c.runs.set k r').any Run.fails = (c.runs.any Run.fails || r'.fails) := by
  rw [Bool.eq_iff_iff, Bool.or_eq_true, List.any_eq_true, List.any_eq_true]
  constructor
  · rintro ⟨x, hx, hfails⟩
    rcases List.mem_or_eq_of_mem_set hx with hx | rfl
    · exact .inl ⟨x, hx, hfails⟩
    · exact .inr hfails
  · have hset : (c.runs.set k r')[k]? = some r' :=
      List.getElem?_set_self (List.getElem?_eq_some_iff.1 hr).1
    rintro (⟨x, hx, hfails⟩ | hfails)
    · obtain ⟨j, hj⟩ := List.getElem?_of_mem hx
      by_cases hk : k = j
      · subst hk
        rw [hr] at hj
        cases hj
        exact ⟨r', List.mem_of_getElem? hset, hkeep hfails⟩
      · rw [← List.getElem?_set_ne hk] at hj
        exact ⟨x, List.mem_of_getElem? hj, hfails⟩
    · exact ⟨r', List.mem_of_getElem? hset, hfails⟩

/-- A stage in which nothing but the failure of a step fires the token. -/
structure Reacting (c : Crew σ) : Prop where
  policy : c.policy = some .cancelSiblings
  unarmed : c.world.cancelAt = none
  fired : c.world.cancelled = c.runs.any Run.fails
  clean : c.world.cancelled = false → ∀ r ∈ c.runs, r.Clean

theorem Reacting.set (h : c.Reacting) (hr : c.runs[k]? = some r)
    (hruns : c'.runs = c.runs.set k r') (hpolicy : c'.policy = c.policy)
    (hunarmed : c'.world.cancelAt = c.world.cancelAt)
    (hfired : c'.world.cancelled = (c.world.cancelled || r'.fails))
    (hkeep : r.fails = true → r'.fails = true)
    (hclean : c.world.cancelled = false → r'.Clean) : c'.Reacting := by
  refine ⟨hpolicy.trans h.policy, hunarmed.trans h.unarmed, ?_, fun hc x hx => ?_⟩
  · rw [hfired, hruns, any_fails_set hr hkeep, h.fired]
  · rw [hfired, Bool.or_eq_false_iff] at hc
    rw [hruns] at hx
    rcases List.mem_or_eq_of_mem_set hx with hx | rfl
    · exact h.clean hc.1 x hx
    · exact hclean hc.1

theorem Reacting.act {a : Actor} (h : c.Reacting) (hact : c.act setup a = some c') :
    c'.Reacting := by
  cases acts_of_act hact with
  | @run k r r' w hr hrun =>
    have ht := Run.transition_of_act hrun
    obtain ⟨hcancelled, hat, -⟩ := token_settle c.policy r' w
    refine h.set hr rfl rfl (hat.trans ht.agrees.cancelAt) ?_ ?_ ?_
    · show (settle c.policy r' w).cancelled = _
      rw [hcancelled, ht.agrees.cancelled, h.policy]
      rfl
    · intro hfails
      rw [ht.not_fails] at hfails
      cases hfails
    · intro hc
      exact (h.clean hc r (List.mem_of_getElem? hr)).transition hc ht
  | @logTask k id r r' w hr htask =>
    obtain ⟨t, result, -, ht, rfl, rfl⟩ := Run.transition_of_actTask htask
    have hmem := List.mem_of_getElem? hr
    refine h.set hr rfl rfl ht.agrees.cancelAt ?_ (fun hfails => hfails) ?_
    · show result.world.cancelled = (c.world.cancelled || r.fails)
      rw [ht.agrees.cancelled, h.fired]
      cases hfails : r.fails with
      | false => exact (Bool.or_false _).symm
      | true =>
        rw [List.any_eq_true.2 ⟨r, hmem, hfails⟩]
        rfl
    · intro hc
      exact h.clean hc r hmem
  | reader => exact ⟨h.policy, h.unarmed, h.fired, h.clean⟩
  | canceller hat =>
    rw [h.unarmed] at hat
    cases hat

theorem Reacting.move (h : c.Reacting) (m : Move) : (c.move setup m).Reacting := by
  cases m with
  | tick =>
    obtain ⟨now, hmove⟩ := move_tick setup c
    rw [hmove]
    exact ⟨h.policy, h.unarmed, h.fired, h.clean⟩
  | pass current waiting => exact ⟨h.policy, h.unarmed, h.fired, h.clean⟩
  | act a =>
    show ((c.act setup a).getD c).Reacting
    cases hact : c.act setup a with
    | none => exact h
    | some c' => exact h.act hact

theorem Reacting.play (h : c.Reacting) (moves : List Move) : (c.play setup moves).Reacting := by
  induction moves generalizing c with
  | nil => exact h
  | cons m moves ih => exact ih (h.move m)

theorem reacting_ofRuns (steps : List StepDefinition) (world : World σ) :
    (ofRuns (steps.map fun step => { step }) (world.withToken false none)
      (some .cancelSiblings)).Reacting := by
  have hstart (r : Run) (hr : r ∈ steps.map fun step => ({ step } : Run)) : r.phase = .start := by
    obtain ⟨step, -, rfl⟩ := List.mem_map.1 hr
    rfl
  refine ⟨rfl, rfl, ?_, fun _ r hr => Run.clean_of_none ?_⟩
  · show false = List.any _ _
    refine (List.any_eq_false.2 fun r hr => ?_).symm
    simp [Run.fails, Run.error?, hstart r hr]
  · simp only [Run.fault?, hstart r hr]

/-! ## as long as no step has failed -/

/-- the same runs, the failure of one of which would mean something else -/
def withPolicy (c : Crew σ) (policy : Option FailurePolicy) : Crew σ := { c with policy }

theorem tick_withPolicy (c : Crew σ) (policy : Option FailurePolicy) :
    (c.withPolicy policy).tick = c.tick.map (·.withPolicy policy) := by
  have hwakes : (c.withPolicy policy).wakes = c.wakes := rfl
  have hworld : (c.withPolicy policy).world = c.world := rfl
  unfold tick
  rw [hwakes, hworld]
  cases (c.wakes.filter (c.world.now < ·)).min? with
  | none => rfl
  | some now => rfl

theorem settle_of_unfired {w : World σ}
    (h : (settle (some .cancelSiblings) r w).cancelled = false) :
    settle (some .runToCompletion) r w = settle (some .cancelSiblings) r w := by
  have hfails : r.fails = false := by
    rw [(token_settle _ r w).1, Bool.or_eq_false_iff] at h
    simpa [fires] using h.2
  unfold settle
  unfold Run.fails at hfails
  cases herror : r.error? with
  | none => rfl
  | some e =>
    have hcancelled : e.isCancelled = true := by simpa [herror] using hfails
    simp only [hcancelled, if_true]

theorem Reacting.move_withPolicy (h : c.Reacting) {m : Move}
    (hc : (c.move setup m).world.cancelled = false) :
    (c.withPolicy (some .runToCompletion)).move setup m =
      (c.move setup m).withPolicy (some .runToCompletion) := by
  cases m with
  | tick =>
    show (c.withPolicy _).tick.getD _ = (c.tick.getD c).withPolicy _
    rw [tick_withPolicy]
    cases c.tick with
    | none => rfl
    | some c' => rfl
  | pass => rfl
  | act a =>
    cases a with
    | reader =>
      simp only [Crew.move, Crew.act, withPolicy]
      cases c.world.channel.receive? with
      | none => rfl
      | some channel => rfl
    | canceller => simp only [Crew.move, Crew.act, withPolicy, h.unarmed, Option.getD_none]
    | logTask k id =>
      cases hr : c.runs[k]? with
      | none => simp only [Crew.move, Crew.act, withPolicy, hr, Option.getD_none]
      | some r =>
        cases hact : r.actTask setup id c.world with
        | none => simp only [Crew.move, Crew.act, withPolicy, hr, hact, Option.getD_none]
        | some p => simp only [Crew.move, Crew.act, withPolicy, hr, hact, Option.getD_some]
    | run k =>
      cases hr : c.runs[k]? with
      | none => simp only [Crew.move, Crew.act, withPolicy, hr, Option.getD_none]
      | some r =>
        cases hact : r.act setup c.world with
        | none => simp only [Crew.move, Crew.act, withPolicy, hr, hact, Option.getD_none]
        | some p =>
          simp only [Crew.move, Crew.act, hr, hact, Option.getD_some, h.policy] at hc
          simp only [Crew.move, Crew.act, withPolicy, hr, hact, Option.getD_some, h.policy,
            settle_of_unfired hc]

/-- as long as no step has failed, each goes on as if all were to go on to their end -/
theorem Reacting.play_withPolicy (h : c.Reacting)
    (hc : (c.play setup moves).world.cancelled = false) :
    (c.withPolicy (some .runToCompletion)).play setup moves =
      (c.play setup moves).withPolicy (some .runToCompletion) := by
  induction moves generalizing c with
  | nil => rfl
  | cons m moves ih =>
    rw [play_cons] at hc
    rw [play_cons, h.move_withPolicy (unfired_of_play hc)]
    exact ih (h.move m) hc

/-! ## the failure of a step -/

/-- **What the failure of a step means for its siblings**, where these are to be cancelled.  It is a
failure if a step has ended with an error, and not as cancelled; one that its builder has broken off
is none.  As long as there is no failure, nothing is cancelled, and all goes on as if each step were
to run to its end.  From the first failure on, a sibling that has not begun makes no call and ends
as cancelled; one that is having its pod created ends with the failure to create it, or else as
cancelled, with the pod deleted; and one whose pod is there and waited for ends as cancelled, with
no other call of its own than the deletion of the pod, which is made once.  None of them needs more
than five steps of its own for this, and only the clock can keep it from the next one. -/
theorem siblings_of_failure (setup : Setup σ) (steps : List StepDefinition) (world : World σ)
    (before after : List Move) :
    let runs := steps.map fun step => ({ step } : Run)
    let stage (policy : FailurePolicy) := ofRuns runs (world.withToken false none) (some policy)
    let mid := (stage .cancelSiblings).play setup before
    let last := mid.play setup after
    (mid.world.cancelled = true ↔
      ∃ r ∈ mid.runs, ∃ e, r.phase = .ended (some e) ∧ e.isCancelled = false) ∧
    (mid.world.cancelled = false →
      (∀ r ∈ mid.runs, ∀ e, r.phase = .ended (some e) → e.isCancelled = false) ∧
      (stage .runToCompletion).play setup before = mid.withPolicy (some .runToCompletion)) ∧
    (mid.world.cancelled = true → ∀ i step r, steps[i]? = some step → mid.runs[i]? = some r →
      r.isPending = true →
      let late := mid.events setup i after
      ∃ r', last.runs[i]? = some r' ∧
        (r'.isOver = true → r.Aftermath setup late r'.phase) ∧
        (Run.stepsOf none late).length ≤ 5 ∧
        (r'.isOver = false → (last.act setup (.run i)).isSome = true ∨ last.tick.isSome = true) ∧
        ∃ rest final, Lifecycle (setup.build step)
            (((stage .cancelSiblings).events setup i (before ++ after)).flatMap (·.calls) ++ rest)
            final ∧
          (r'.isOver = true → rest = [] ∧ final = r'.phase)) := by
  intro runs stage mid last
  have hreacting : mid.Reacting := (reacting_ofRuns steps world).play before
  refine ⟨?fired, ?unfired, ?siblings⟩
  case fired =>
    rw [hreacting.fired, List.any_eq_true]
    simp only [Run.fails_iff]
  case unfired =>
    intro hc
    refine ⟨fun r hr e he => ?_, (reacting_ofRuns steps world).play_withPolicy hc⟩
    exact hreacting.clean hc r hr e (by simp only [Run.fault?, he])
  case siblings =>
    intro hc i step r hstep hr hp late
    obtain ⟨r', hr', hfated⟩ : ∃ r', last.runs[i]? = some r' ∧ Run.Fated setup r late r' :=
      fated_of_play setup hr hc hp after
    have hfew : (Run.stepsOf none late).length ≤ 5 := by
      have hsteps := hfated.steps
      have hle := r.stepsLeft_le
      omega
    have hbegin : (stage .cancelSiblings).runs[i]? = some { step } := by
      show (steps.map fun step => ({ step } : Run))[i]? = _
      rw [List.getElem?_map, hstep]
      rfl
    obtain ⟨s, hs, rest, final, hlife, hover⟩ : ∃ s, last.runs[i]? = some s ∧
        ∃ rest final, Lifecycle (setup.build step)
          (((stage .cancelSiblings).events setup i (before ++ after)).flatMap (·.calls) ++ rest)
          final ∧ (s.isOver = true → rest = [] ∧ final = s.phase) := by
      show ∃ s, (((stage .cancelSiblings).play setup before).play setup after).runs[i]? = _ ∧ _
      rw [← play_append]
      exact lifecycle_among_others hbegin (before ++ after)
    obtain rfl : r' = s := Option.some.inj (hr'.symm.trans hs)
    exact ⟨r', hr', hfated.fate.aftermath, hfew,
      fun ho => able_of_cancelled hr' (cancelled_play hc after) ho, rest, final, hlife, hover⟩

/-- one step is broken off by its builder, whereupon another has its pod created; then the builder
refuses a third one, and the pod is deleted again -/
theorem siblings_of_panic :
    let spec : PodSpec :=
      { name := "p", namespaceName := "ns", containers := [{ name := "a", image := "i" }] }
    let platform : Platform Unit :=
      { create := fun _ _ => (.ok none, ())
        fetch := fun _ _ => (.ok { phase := .running, statuses := [.running "a" true] }, ())
        openLogs := fun _ _ _ => (.stream (.ofReads []), ())
        delete := fun _ _ => (.ok (), ())
        delay := fun _ _ _ => 0 }
    let build (step : StepDefinition) : Built :=
      if step.name = "broken" then .panicked
      else if step.name = "refused" then .refused "no image"
      else .spec spec
    let setup : Setup Unit := ⟨platform, {}, build⟩
    let steps : List StepDefinition :=
      ["broken", "good", "refused"].map fun name => { name, image := "i" }
    let world : World Unit := { state := (), channel := { room := 9 } }
    let before : List Move := .act (.run 0) :: List.replicate 3 (.act (.run 1))
    let after : List Move := List.replicate 3 (.act (.run 1))
    let stage := ofRuns (steps.map fun step => ({ step } : Run)) (world.withToken false none)
      (some .cancelSiblings)
    let mid := stage.play setup before
    let fired := stage.play setup (before ++ [.act (.run 2)])
    let last := fired.play setup after
    (mid.runs.map (·.isPanicked) = [true, false, false] ∧ mid.world.cancelled = false ∧
      mid.world.calls.map (·.event) = [.created true]) ∧
    fired.world.cancelled = true ∧
    ∃ r, last.runs[1]? = some r ∧ r.phase = .ended (some (.cancelled "good")) ∧
      last.world.calls.map (·.event) = [.deleted true, .created true] := by
  intro spec platform build setup steps world before after stage mid fired last
  refine ⟨⟨by decide +kernel, ?_, by decide +kernel⟩, ?_⟩
  · -- no step has failed
    have hnone : mid.runs.all (·.error?.isNone) = true := by decide +kernel
    rw [← Bool.not_eq_true, (siblings_of_failure setup steps world before []).1]
    rintro ⟨r, hr, e, hp, -⟩
    have hall := List.all_eq_true.1 hnone r hr
    simp [Run.error?, hp] at hall
  · have hsome : fired.runs.any Run.fails = true := by decide +kernel
    obtain ⟨r, hr, hfails⟩ := List.any_eq_true.1 hsome
    have hall := siblings_of_failure setup steps world (before ++ [.act (.run 2)]) after
    have hfired : fired.world.cancelled = true := hall.1.2 ⟨r, hr, Run.fails_iff.1 hfails⟩
    refine ⟨hfired, ?_⟩
    have hsibling : fired.runs[1]?.any (fun r => r.isPending && r.inHand?.isSome &&
        r.step.name = "good") = true := by decide +kernel
    obtain ⟨r, hr, hr'⟩ := (Option.any_eq_true _ _).1 hsibling
    simp only [Bool.and_eq_true, decide_eq_true_eq] at hr'
    obtain ⟨⟨hp, hin⟩, hname⟩ := hr'
    obtain ⟨r', hend, hafter, -⟩ := hall.2.2 hfired 1 _ r rfl hr hp
    have hover : last.runs[1]?.all (·.isOver) = true := by decide +kernel
    have hover : r'.isOver = true := by
      rw [show last.runs[1]? = some r' from hend] at hover
      exact hover
    refine ⟨r', hend, ?_, by decide +kernel⟩
    have hfinal := hafter hover
    generalize r'.phase = final at hfinal
    cases hfinal with
    | untouched h₀ => simp [Run.inHand?, h₀] at hin
    | refused h₀ => simp [Run.inHand?, h₀] at hin
    | deleted => rw [hname]

end Crew

end StepRunner
