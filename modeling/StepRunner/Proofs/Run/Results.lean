import StepRunner.Proofs.Run.Siblings
import StepRunner.Proofs.Run.Unswayed

/-!
# The results of a stage

What is recorded for the steps of a stage, in whatever order they come to their ends: the entries
are in the order of the stage, each is what became of the run of its own step, and none changes any
more once this run is over.

* `Crew.begun`            a stage before its first step
* `Run.result`            what is recorded of a run (`error_result_of_ended`, `…_of_panicked`)
* `exists_places`         the elements of a list that are kept, by their places
* `results_of_play`       the results are those of the steps, under every schedule
* `error_of_play`         an error that a step has come to is not replaced
* `cause_of_cancelled`    a step that ends as cancelled has a sibling that has failed
-/

namespace StepRunner

variable {σ : Type}

/-! ## one entry -/

namespace Run

variable {r : Run}

theorem error_result_of_ended {outcome : Option RunError} (h : r.phase = .ended outcome) :
    r.result.error = outcome := by
  simp only [result, isPanicked, error?, h, Bool.false_eq_true, if_false]

theorem error_result_of_panicked (h : r.phase = .panicked) :
    r.result.error = some (.stepPanicked r.step.name "the task panicked") := by
  simp only [result, isPanicked, h, if_true]

theorem ended_of_cancelled {e : RunError} (h : r.result.error = some e)
    (hc : e.isCancelled = true) : r.phase = .ended (some e) := by
  unfold result at h
  dsimp only at h
  split at h
  next =>
    cases h
    cases hc
  next =>
    unfold error? at h
    split at h
    next outcome hp => rw [hp, h]
    next => cases h

theorem error_result_of_fails (h : r.fails = true) :
    ∃ e, r.result.error = some e ∧ e.isCancelled = false := by
  obtain ⟨e, hp, hc⟩ := fails_iff.1 h
  exact ⟨e, error_result_of_ended hp, hc⟩

end Run

/-! ## places -/

/-- The elements of a list that are kept, by their places: these are in ascending order, and they
are the places of just the elements that are to be kept. -/
theorem exists_places {α : Type} (p : α → Bool) (l : List α) :
    ∃ places : List Nat, places.Pairwise (· < ·) ∧
      (∀ i, i ∈ places ↔ ∃ a, l[i]? = some a ∧ p a = true) ∧
      (l.filter p).map some = places.map (l[·]?) := by
  induction l with
  | nil => exact ⟨[], .nil, by simp, rfl⟩
  | cons a l ih =>
    obtain ⟨places, hascending, hmem, hkept⟩ := ih
    have hlater : (places.map (· + 1)).Pairwise (· < ·) :=
      List.pairwise_map.2 (hascending.imp fun h => Nat.succ_lt_succ h)
    have htail : (places.map (· + 1)).map ((a :: l)[·]?) = places.map (l[·]?) := by
      rw [List.map_map]
      rfl
    cases hp : p a with
    | true =>
      refine ⟨0 :: places.map (· + 1), List.pairwise_cons.2 ⟨?_, hlater⟩, fun i => ?_, ?_⟩
      · intro i hi
        obtain ⟨k, -, rfl⟩ := List.mem_map.1 hi
        exact Nat.succ_pos k
      · cases i with
        | zero => simp [hp]
        | succ i => simpa using hmem i
      · rw [List.filter_cons_of_pos hp, List.map_cons, List.map_cons, htail, hkept]
        rfl
    | false =>
      refine ⟨places.map (· + 1), hlater, fun i => ?_, ?_⟩
      · cases i with
        | zero => simp [hp]
        | succ i => simpa using hmem i
      · rw [List.filter_cons_of_neg (by simp [hp]), htail, hkept]

namespace Crew

variable {setup : Setup σ} {c : Crew σ} {i : Nat} {r : Run} {step : StepDefinition}
  {steps : List StepDefinition} {policy : Option FailurePolicy} {world : World σ}

/-! ## all entries -/

/-- the steps of a stage before the first of them begins -/
def begun (steps : List StepDefinition) (world : World σ) (policy : Option FailurePolicy) :
    Crew σ :=
  ofRuns (steps.map fun step => { step }) world policy

/-- what is recorded of a stage with these runs -/
def entries (c : Crew σ) : List StepResult := c.runs.map Run.result

theorem runs_begun (h : steps[i]? = some step) :
    (begun steps world policy).runs[i]? = some { step } := by
  show (steps.map fun step => ({ step } : Run))[i]? = _
  rw [List.getElem?_map, h]
  rfl

theorem length_entries_play (moves : List Move) :
    ((begun steps world policy).play setup moves).entries.length = steps.length := by
  rw [entries, List.length_map, length_runs_play]
  exact List.length_map _

theorem getElem?_entries (hr : c.runs[i]? = some r) : c.entries[i]? = some r.result := by
  rw [entries, List.getElem?_map, hr]
  rfl

theorem runs_play_of_over {calls : List CallRecord} (hr : c.runs[i]? = some r)
    (hconf : r.Conforms setup step calls) (ho : r.isOver = true) (moves : List Move) :
    (c.play setup moves).runs[i]? = some r := by
  have hnil : r.tasks = [] := hconf.tidy.tasks_of_isOver ho
  have hstep (past : List (RunEvent σ)) (e : RunEvent σ) (h : e.before = r) (hv : e.Valid setup) :
      e.after = r :=
    absurd hv (Run.not_valid_of_isOver (h ▸ ho) (h ▸ hnil))
  obtain ⟨r', hr', hsame⟩ := play_induction (Q := fun _ r' => r' = r) hstep moves hr rfl
  rw [hr', hsame]

/-- **The results of a stage are those of its steps**, one for each and in the order of the stage,
under every schedule.  An entry has name and type of its step, and the outcome of the run of this
step: of the one that lives the life of the pod that is built for it.  One that the builder has
broken off counts as an error.  As soon as the run is over the entry is settled.  The stage is a
success if no entry has an error, and its failed steps are the entries that have one, in order. -/
theorem results_of_play (setup : Setup σ) (policy : FailurePolicy) (stage : StageDefinition)
    (world : World σ) (moves : List Move) :
    let first := begun stage.steps world (some policy)
    let last := first.play setup moves
    let result := (last.stageResult stage world.now).1
    result.steps.length = stage.steps.length ∧
    (∀ i step, stage.steps[i]? = some step → ∃ r entry,
      last.runs[i]? = some r ∧ result.steps[i]? = some entry ∧
      entry.name = step.name ∧ entry.stepType = step.stepType ∧
      (∃ rest final, Lifecycle (setup.build step)
          ((first.events setup i moves).flatMap (·.calls) ++ rest) final ∧
        (r.isOver = true → rest = [] ∧ final = r.phase)) ∧
      (∀ outcome, r.phase = .ended outcome → entry.error = outcome) ∧
      (r.phase = .panicked → ∃ reason, entry.error = some (.stepPanicked step.name reason)) ∧
      (r.isOver = true → ∀ more,
        ((last.play setup more).stageResult stage world.now).1.steps[i]? = some entry)) ∧
    (result.success = true ↔ ∀ entry ∈ result.steps, entry.error = none) ∧
    (∃ places : List Nat, places.Pairwise (· < ·) ∧
      (∀ i, i ∈ places ↔ ∃ entry, result.steps[i]? = some entry ∧ entry.error.isSome = true) ∧
      result.failedSteps.map some = places.map (result.steps[·]?)) := by
  intro first last result
  refine ⟨length_entries_play moves, fun i step hstep => ?entry, ?success, ?failed⟩
  case entry =>
    have hbegin : first.runs[i]? = some { step } := runs_begun hstep
    obtain ⟨r, hr, hconf⟩ : ∃ r, last.runs[i]? = some r ∧
        r.Conforms setup step ((first.events setup i moves).flatMap (·.calls)) :=
      conforms_among_others hbegin moves
    have hsame : r.step = step := hconf.same
    refine ⟨r, r.result, hr, getElem?_entries hr, congrArg StepDefinition.name hsame,
      congrArg StepDefinition.stepType hsame, hconf.lifecycle,
      fun outcome hp => Run.error_result_of_ended hp, fun hp => ?_,
      fun ho more => getElem?_entries (runs_play_of_over hr hconf ho more)⟩
    rw [← hsame]
    exact ⟨_, Run.error_result_of_panicked hp⟩
  case success =>
    show stageSucceeds (last.entries.map (·.succeeded)) = true ↔ ∀ entry ∈ last.entries, _
    simp only [stageSucceeds, StepResult.succeeded, List.all_map, List.all_eq_true,
      Function.comp_apply, id_eq, Option.isNone_iff_eq_none]
  case failed =>
    obtain ⟨places, hascending, hmem, hkept⟩ :=
      exists_places (fun entry : StepResult => !entry.succeeded) result.steps
    refine ⟨places, hascending, fun i => (hmem i).trans ?_, hkept⟩
    simp only [StepResult.succeeded, Bool.not_eq_true', Option.isNone_eq_false_iff]

/-- two steps of one name, the second of which comes to its end first; the first one is broken off
by its builder -/
theorem results_of_panic :
    let platform : Platform Unit :=
      { create := fun _ _ => (.ok none, ())
        fetch := fun _ _ => (.ok {}, ())
        openLogs := fun _ _ _ => (.stream (.ofReads []), ())
        delete := fun _ _ => (.ok (), ())
        delay := fun _ _ _ => 0 }
    let build (step : StepDefinition) : Built :=
      if step.image = "" then .refused "no image" else .panicked
    let setup : Setup Unit := ⟨platform, {}, build⟩
    let stage : StageDefinition :=
      { name := "test"
        steps := [⟨"s", "first", "i", [], ∅⟩, ⟨"s", "second", "", [], ∅⟩] }
    let world : World Unit := { state := () }
    let first := begun stage.steps world (some .runToCompletion)
    let last := first.play setup [.act (.run 1), .act (.run 0)]
    let result := (last.stageResult stage world.now).1
    result.success = false ∧
    (result.failedSteps.map fun entry => (entry.stepType, entry.error.map RunError.text)) =
      [("first", some "step 's' panicked: the task panicked"),
        ("second", some "failed to build pod spec for step 's': no image")] ∧
    ∃ entry, result.steps[0]? = some entry ∧ entry.stepType = "first" ∧
      ∃ reason, entry.error = some (.stepPanicked "s" reason) := by
  intro platform build setup stage world first last result
  refine ⟨by decide +kernel, by decide +kernel, ?_⟩
  have hall := results_of_play setup .runToCompletion stage world [.act (.run 1), .act (.run 0)]
  obtain ⟨r, entry, hr, hentry, -, htype, -, -, hpanicked, -⟩ := hall.2.1 0 _ rfl
  refine ⟨entry, hentry, htype, hpanicked ?_⟩
  have hbroken : last.runs[0]?.any (·.isPanicked) = true := by decide +kernel
  rw [show last.runs[0]? = some r from hr, Option.any_some] at hbroken
  unfold Run.isPanicked at hbroken
  split at hbroken
  next hp => exact hp
  next => cases hbroken

/-! ## the token -/

theorem policy_move (m : Move) : (c.move setup m).policy = c.policy := by
  cases m with
  | tick =>
    obtain ⟨now, hmove⟩ := move_tick setup c
    rw [hmove]
  | pass current waiting => rfl
  | act a =>
    refine move_act (P := fun c' => c'.policy = c.policy) (fun _ => rfl) fun c' h => ?_
    cases h <;> rfl

/-- a token that no one is going to fire -/
structure Unarmed (c : Crew σ) : Prop where
  policy : c.policy ≠ some .cancelSiblings
  cancelled : c.world.cancelled = false
  cancelAt : c.world.cancelAt = none

theorem Unarmed.of_token {w : World σ} (h : c.Unarmed)
    (hcancelled : w.cancelled = c.world.cancelled) (hat : w.cancelAt = c.world.cancelAt) :
    w.cancelled = false ∧ w.cancelAt = none :=
  ⟨hcancelled.trans h.cancelled, hat.trans h.cancelAt⟩

theorem Unarmed.move (h : c.Unarmed) (m : Move) : (c.move setup m).Unarmed := by
  have htoken : (c.move setup m).world.cancelled = false ∧
      (c.move setup m).world.cancelAt = none := by
    cases m with
    | tick =>
      obtain ⟨now, hmove⟩ := move_tick setup c
      rw [hmove]
      exact h.of_token rfl rfl
    | pass => exact h.of_token rfl rfl
    | act a =>
      have htouched := touched_act setup c a
      generalize (c.move setup (.act a)).world = w at htouched
      cases htouched with
      | still | reader => exact h.of_token rfl rfl
      | @run r r' w ht =>
        obtain ⟨hcancelled, hat, -⟩ := token_settle c.policy r' w
        have hfires : fires c.policy r' = false := by simp [fires, h.policy]
        rw [hfires, Bool.or_false] at hcancelled
        exact h.of_token (hcancelled.trans ht.agrees.cancelled) (hat.trans ht.agrees.cancelAt)
      | logTask ht => exact h.of_token ht.agrees.cancelled ht.agrees.cancelAt
      | canceller hat =>
        rw [h.cancelAt] at hat
        cases hat
  exact ⟨by rw [policy_move]; exact h.policy, htoken.1, htoken.2⟩

theorem Unarmed.play (h : c.Unarmed) (moves : List Move) : (c.play setup moves).Unarmed := by
  induction moves generalizing c with
  | nil => exact h
  | cons m moves ih => exact ih (h.move m)

theorem clean_of_play (hr : c.runs[i]? = some { step }) (moves : List Move)
    (hc : (c.play setup moves).world.cancelled = false) :
    ∃ r, (c.play setup moves).runs[i]? = some r ∧ r.Clean :=
  play_induction_of (Q := fun _ r => r.Clean) (fun _ _ hunfired h hv => h.event hunfired hv)
    moves (fun _ he => unfired_of_mem_events hc he) hr (Run.clean_of_none rfl)

/-! ## what was cancelled, and why -/

theorem error_of_play {e : RunError} (hr : c.runs[i]? = some r)
    (he : r.phase = .ended (some e) ∨ ∃ spec, r.phase = .deleting spec (some e))
    (moves : List Move) :
    ∃ r', (c.play setup moves).runs[i]? = some r' ∧
      (r'.phase = .ended (some e) ∨ ∃ spec, r'.phase = .deleting spec (some e)) := by
  have hiff (r : Run) : (r.phase = .ended (some e) ∨ ∃ spec, r.phase = .deleting spec (some e)) ↔
      r.isPending = false ∧ r.fault? = some e := by
    unfold Run.isPending Run.fault?
    cases r.phase <;> simp
  have hstep (past : List (RunEvent σ)) (x : RunEvent σ)
      (h : x.before.isPending = false ∧ x.before.fault? = some e) (hv : x.Valid setup) :
      x.after.isPending = false ∧ x.after.fault? = some e := by
    obtain ⟨hpending, hfault⟩ := Run.of_not_pending h.1 hv
    exact ⟨hpending, hfault.trans h.2⟩
  obtain ⟨r', hr', h⟩ := play_induction (Q := fun _ r => r.isPending = false ∧ r.fault? = some e)
    hstep moves hr ((hiff r).1 he)
  exact ⟨r', hr', (hiff r').2 h⟩

theorem failed_of_cancelled {e : RunError} {moves : List Move} (hstep : steps[i]? = some step)
    {policy : FailurePolicy}
    (hr : ((begun steps (world.withToken false none) (some policy)).play setup moves).runs[i]? =
      some r)
    (he : r.phase = .ended (some e)) (hc : e.isCancelled = true) :
    policy = .cancelSiblings ∧
      ∃ r' ∈ ((begun steps (world.withToken false none) (some policy)).play setup moves).runs,
        r'.fails = true := by
  have hfired : ((begun steps (world.withToken false none) (some policy)).play setup
      moves).world.cancelled = true := by
    rw [← Bool.not_eq_false]
    intro hunfired
    obtain ⟨s, hs, hclean⟩ := clean_of_play (runs_begun hstep) moves hunfired
    obtain rfl : r = s := Option.some.inj (hr.symm.trans hs)
    have hnot := hclean e (by simp only [Run.fault?, he])
    rw [hc] at hnot
    cases hnot
  cases policy with
  | runToCompletion =>
    have hunarmed : (begun steps (world.withToken false none) (some .runToCompletion)).Unarmed :=
      ⟨by simp [begun, ofRuns], rfl, rfl⟩
    rw [(hunarmed.play moves).cancelled] at hfired
    cases hfired
  | cancelSiblings =>
    refine ⟨rfl, List.any_eq_true.1 ?_⟩
    exact ((reacting_ofRuns steps world).play moves).fired.symm.trans hfired

/-- **A step that ends as cancelled has a sibling that has failed**, and the siblings of a failure
are to be cancelled, if the token is not fired from outside; where each step is to go on to its end,
none is cancelled.  And the error that a step has come to, with its pod to be deleted or without
one, is the error that is recorded for it, whatever becomes of the token. -/
theorem cause_of_cancelled (setup : Setup σ) (policy : FailurePolicy) (stage : StageDefinition)
    (world : World σ) (before after : List Move) :
    let first := begun stage.steps (world.withToken false none) (some policy)
    let mid := first.play setup before
    let last := mid.play setup after
    let entries := (last.stageResult stage world.now).1.steps
    (∀ (i : Nat) (entry : StepResult) (e : RunError), entries[i]? = some entry →
      entry.error = some e → e.isCancelled = true →
      policy = .cancelSiblings ∧ ∃ (j : Nat) (other : StepResult) (e' : RunError), j ≠ i ∧
        entries[j]? = some other ∧ other.error = some e' ∧ e'.isCancelled = false) ∧
    (∀ (i : Nat) (r : Run) (e : RunError), mid.runs[i]? = some r →
      (r.phase = .ended (some e) ∨ ∃ spec, r.phase = .deleting spec (some e)) →
      ∃ r' : Run, last.runs[i]? = some r' ∧
        (r'.phase = .ended (some e) ∨ ∃ spec, r'.phase = .deleting spec (some e)) ∧
        (r'.isOver = true →
          ∃ entry : StepResult, entries[i]? = some entry ∧ entry.error = some e)) := by
  intro first mid last entries
  refine ⟨fun i entry e hentry he hc => ?cause, fun i r e hr he => ?own⟩
  case cause =>
    have hlast : last = first.play setup (before ++ after) := (play_append setup ..).symm
    obtain ⟨r, hr, rfl⟩ : ∃ r, last.runs[i]? = some r ∧ r.result = entry := by
      have hmap : (last.runs.map Run.result)[i]? = some entry := hentry
      rwa [List.getElem?_map, Option.map_eq_some_iff] at hmap
    have hp := Run.ended_of_cancelled he hc
    obtain ⟨step, hstep⟩ : ∃ step, stage.steps[i]? = some step := by
      have hlt : i < last.runs.length := (List.getElem?_eq_some_iff.1 hr).1
      have hlength : last.runs.length = stage.steps.length := by
        rw [hlast, length_runs_play]
        exact List.length_map _
      exact ⟨_, List.getElem?_eq_getElem (hlength ▸ hlt)⟩
    rw [hlast] at hr
    obtain ⟨hpolicy, r', hmem, hfails⟩ := failed_of_cancelled hstep hr hp hc
    rw [← hlast] at hr hmem
    obtain ⟨j, hj⟩ := List.getElem?_of_mem hmem
    obtain ⟨e', he', hc'⟩ := Run.error_result_of_fails hfails
    refine ⟨hpolicy, j, r'.result, e', ?_, getElem?_entries hj, he', hc'⟩
    rintro rfl
    obtain rfl : r' = r := Option.some.inj (hj.symm.trans hr)
    rw [Option.some.inj (he'.symm.trans he), hc] at hc'
    cases hc'
  case own =>
    obtain ⟨r', hr', h⟩ : ∃ r', last.runs[i]? = some r' ∧
        (r'.phase = .ended (some e) ∨ ∃ spec, r'.phase = .deleting spec (some e)) :=
      error_of_play hr he after
    refine ⟨r', hr', h, fun ho => ⟨r'.result, getElem?_entries hr', ?_⟩⟩
    rcases h with hp | ⟨spec, hp⟩
    · exact Run.error_result_of_ended hp
    · simp [Run.isOver, hp] at ho

/-- the pod of one step is created, whereupon the builder refuses another: this is what the first
one is cancelled for -/
theorem cause_of_refusal :
    let spec : PodSpec :=
      { name := "p", namespaceName := "ns", containers := [{ name := "a", image := "i" }] }
    let platform : Platform Unit :=
      { create := fun _ _ => (.ok none, ())
        fetch := fun _ _ => (.ok { phase := .running, statuses := [.running "a" true] }, ())
        openLogs := fun _ _ _ => (.stream (.ofReads []), ())
        delete := fun _ _ => (.ok (), ())
        delay := fun _ _ _ => 0 }
    let build (step : StepDefinition) : Built :=
      if step.image = "" then .refused "no image" else .spec spec
    let setup : Setup Unit := ⟨platform, {}, build⟩
    let stage : StageDefinition :=
      { name := "test"
        steps := [{ name := "good", image := "i" }, { name := "bad", image := "" }] }
    let world : World Unit := { state := (), channel := { room := 9 } }
    let before : List Move := List.replicate 3 (.act (.run 0)) ++ [.act (.run 1)]
    let after : List Move := List.replicate 3 (.act (.run 0))
    let first := begun stage.steps (world.withToken false none) (some .cancelSiblings)
    let last := (first.play setup before).play setup after
    let entries := (last.stageResult stage world.now).1.steps
    (entries.map fun entry => entry.error.map RunError.text) =
      [some "step 'good' was cancelled", some "failed to build pod spec for step 'bad': no image"] ∧
    ∃ (j : Nat) (other : StepResult) (e : RunError), j ≠ 0 ∧ entries[j]? = some other ∧
      other.error = some e ∧ e.isCancelled = false := by
  intro spec platform build setup stage world before after first last entries
  refine ⟨by decide +kernel, ?_⟩
  have hcancelled : entries[0]?.any (fun entry => entry.error.any (·.isCancelled)) = true := by
    decide +kernel
  obtain ⟨entry, hentry, herror⟩ := (Option.any_eq_true _ _).1 hcancelled
  obtain ⟨e, he, hc⟩ := (Option.any_eq_true _ _).1 herror
  exact ((cause_of_cancelled setup .cancelSiblings stage world before after).1 0 entry e hentry he
    hc).2

end Crew

end StepRunner
