import StepRunner.Proofs.Run.Prompt

/-!
# The token

No step of a run or of a log task touches the token; it fires by itself, or when a step of a stage
fails.  Once it has fired, a run that has not begun ends without a call; one whose pod is being
created goes on until this is decided; and one whose pod is in hand drops all it was doing and
deletes it.  Each of them has only so many steps left, and no one can keep it from making them.

* `Run.Clean`             a run that does not end as cancelled
* `Clean.event`           so it is as long as the token has not fired
* `Run.stepsLeft`         the steps that a run makes at most once the token has fired
* `Run.born?`             the calls until the pod is deleted
* `Run.Fated`             a run since the token has fired
* `Run.Aftermath`         what it comes to in the end
* `Fated.event`           every step goes on with it
* `able_of_cancelled`     it can make its next step, or the clock can move on
* `fated_of_play`         what becomes of a run when the token has fired
-/

namespace StepRunner

variable {σ : Type}

/-! ## the token stays as it is -/

/-- the same world with another token -/
def World.withToken (w : World σ) (cancelled : Bool) (cancelAt : Option Nat) : World σ :=
  { w with cancelled, cancelAt }

/-- two worlds with the same clock and the same token -/
structure World.Agrees (w w' : World σ) : Prop where
  cancelled : w'.cancelled = w.cancelled
  cancelAt : w'.cancelAt = w.cancelAt
  now : w'.now = w.now

theorem World.Agrees.refl (w : World σ) : w.Agrees w := ⟨rfl, rfl, rfl⟩

theorem LogTask.Transition.agrees {platform : Platform σ} {options : Text.SanitizeOptions}
    {t : LogTask} {w : World σ} {result : Result σ} (h : Transition platform options t w result) :
    w.Agrees result.world := by
  cases h with
  | closed =>
    unfold close
    split <;> exact ⟨rfl, rfl, rfl⟩
  | _ => exact ⟨rfl, rfl, rfl⟩

namespace Run

variable {setup : Setup σ} {r r' : Run} {w w' : World σ}

theorem Transition.agrees (h : Transition setup r w r' w') : w.Agrees w' := by
  cases h with
  | created => split <;> exact ⟨rfl, rfl, rfl⟩
  | joinedAll => split <;> exact ⟨rfl, rfl, rfl⟩
  | _ => exact ⟨rfl, rfl, rfl⟩

end Run

theorem RunEvent.Valid.agrees {setup : Setup σ} {e : RunEvent σ} (h : e.Valid setup) :
    e.seen.Agrees e.left := by
  unfold RunEvent.Valid at h
  split at h
  · exact (Run.transition_of_act h).agrees
  · obtain ⟨t, result, -, ht, hleft, -⟩ := Run.transition_of_actTask h
    rw [hleft]
    exact ht.agrees

/-- whether a run has ended with an error, and not as cancelled -/
def Run.fails (r : Run) : Bool := r.error?.any fun e => !e.isCancelled

namespace Crew

variable {setup : Setup σ} {c : Crew σ} {i : Nat} {m : Move} {moves : List Move} {r : Run}

/-- whether the end of a run, as it is, fires the token -/
def fires (policy : Option FailurePolicy) (r : Run) : Bool :=
  policy = some .cancelSiblings && r.fails

theorem token_settle (policy : Option FailurePolicy) (r : Run) (w : World σ) :
    (settle policy r w).cancelled = (w.cancelled || fires policy r) ∧
      (settle policy r w).cancelAt = w.cancelAt ∧ (settle policy r w).now = w.now := by
  unfold settle fires Run.fails
  cases policy with
  | none => simp
  | some policy =>
    cases r.error? with
    | none => simp
    | some e =>
      cases hcancelled : e.isCancelled with
      | true => simp [hcancelled]
      | false => cases policy <;> simp [World.warn, hcancelled]

theorem token_move_act (a : Actor) :
    (c.move setup (.act a)).world.now = c.world.now ∧
      (c.world.cancelled = true → (c.move setup (.act a)).world.cancelled = true) := by
  have htouched := touched_act setup c a
  generalize (c.move setup (.act a)).world = w at htouched
  cases htouched with
  | still | reader => exact ⟨rfl, fun hc => hc⟩
  | @run r r' w ht =>
    obtain ⟨hcancelled, -, hnow⟩ := token_settle c.policy r' w
    refine ⟨hnow.trans ht.agrees.now, fun hc => ?_⟩
    rw [hcancelled, ht.agrees.cancelled, hc]
    rfl
  | logTask ht => exact ⟨ht.agrees.now, fun hc => ht.agrees.cancelled.trans hc⟩
  | canceller => exact ⟨rfl, fun _ => rfl⟩

theorem now_move (hm : m ≠ .tick) : (c.move setup m).world.now = c.world.now := by
  cases m with
  | tick => exact absurd rfl hm
  | pass => rfl
  | act a => exact (token_move_act a).1

theorem cancelled_move (hc : c.world.cancelled = true) :
    (c.move setup m).world.cancelled = true := by
  cases m with
  | tick =>
    obtain ⟨now, hmove⟩ := move_tick setup c
    rw [hmove]
    exact hc
  | pass => exact hc
  | act a => exact (token_move_act a).2 hc

theorem cancelled_play (hc : c.world.cancelled = true) (moves : List Move) :
    (c.play setup moves).world.cancelled = true := by
  induction moves generalizing c with
  | nil => exact hc
  | cons m moves ih => exact ih (cancelled_move hc)

theorem unfired_of_play (hc : (c.play setup moves).world.cancelled = false) :
    c.world.cancelled = false := by
  cases hbefore : c.world.cancelled with
  | false => rfl
  | true => exact absurd (hc.symm.trans (cancelled_play hbefore moves)) Bool.false_ne_true

theorem unfired_of_mem_events (hc : (c.play setup moves).world.cancelled = false) {e : RunEvent σ}
    (he : e ∈ c.events setup i moves) : e.seen.cancelled = false := by
  induction moves generalizing c with
  | nil => cases he
  | cons m moves ih =>
    rw [events, List.mem_append, Option.mem_toList] at he
    obtain he | he := he
    · rw [(seen_of_event? he).1]
      exact unfired_of_play hc
    · exact ih hc he

theorem cancelled_of_mem_events (hc : c.world.cancelled = true) {e : RunEvent σ}
    (he : e ∈ c.events setup i moves) : e.seen.cancelled = true := by
  induction moves generalizing c with
  | nil => cases he
  | cons m moves ih =>
    rw [events, List.mem_append, Option.mem_toList] at he
    obtain he | he := he
    · rw [(seen_of_event? he).1]
      exact hc
    · exact ih (cancelled_move hc) he

end Crew

/-! ## as long as the token has not fired -/

theorem Watch.Look.isCancelled {w watch : Watch} {polls : Nat}
    {answer : Except ClusterError PodSnapshot} {e : RunError}
    (h : w.Look polls answer watch (some (.error e))) : e.isCancelled = false := by
  cases h <;> rfl

theorem FinishedPod.isCancelled_of_verdict? {report : FinishedPod} {checkExitCodes : Bool}
    {pod : String} {e : RunError} (h : report.verdict? checkExitCodes pod = some e) :
    e.isCancelled = false := by
  have hleft (h : report.leftError? pod = some e) : e.isCancelled = false := by
    unfold leftError? at h
    split at h
    · cases h
    · cases h
      rfl
  unfold verdict? at h
  split at h
  next =>
    cases hexit : report.exitError? pod with
    | none =>
      rw [hexit, Option.none_or] at h
      exact hleft h
    | some e' =>
      rw [hexit, Option.some_or] at h
      cases h
      unfold exitError? at hexit
      split at hexit
      · cases hexit
        rfl
      · split at hexit
        · cases hexit
          rfl
        · cases hexit
  next => exact hleft h

namespace Run

variable {setup : Setup σ} {r r' : Run} {w w' : World σ} {e : RunEvent σ}

/-- the error that a run goes to its end with, or that has ended its streaming of logs -/
def fault? (r : Run) : Option RunError :=
  match r.phase with
  | .joining _ fatal => fatal
  | .deleting _ outcome | .ended outcome => outcome
  | _ => none

/-- a run that does not end as cancelled -/
def Clean (r : Run) : Prop := ∀ e, r.fault? = some e → e.isCancelled = false

theorem clean_of_none (h : r.fault? = none) : r.Clean := by
  intro e he
  rw [h] at he
  cases he

theorem clean_of_fault {error : RunError} (h : r.fault? = some error)
    (hc : error.isCancelled = false) : r.Clean := by
  intro e he
  rw [h] at he
  cases he
  exact hc

theorem clean_afterStreaming (r : Run) (spec : PodSpec) (s : Streaming) (now : Nat)
    {outcome : Watch.Outcome} (h : ∀ e, outcome = .error e → e.isCancelled = false) :
    (r.afterStreaming spec s now outcome).Clean := by
  unfold afterStreaming
  split
  next => exact clean_of_none rfl
  next => exact clean_of_none rfl
  next => exact clean_of_none rfl
  next e _ _ => exact clean_of_fault rfl (h e rfl)

theorem clean_afterJoining (hr : r.Clean) {spec : PodSpec} {fatal : Option RunError}
    (hp : r.phase = .joining spec fatal) (now : Nat) :
    (r.afterJoining setup spec fatal now).Clean := by
  have herror (e : RunError) (he : logError? fatal r.failures = some e) :
      e.isCancelled = false := by
    unfold logError? at he
    split at he
    next e' =>
      cases he
      exact hr e (by simp only [fault?, hp])
    next =>
      split at he
      · cases he
      · cases he
        rfl
  unfold afterJoining
  dsimp only
  split
  next => exact clean_of_none rfl
  next e _ he => exact clean_of_fault rfl (herror e he)
  next => exact fun e he => herror e he

theorem clean_closeFinishing (r : Run) (spec : PodSpec) (report : FinishedPod) (now : Nat) :
    (r.closeFinishing setup spec report now).Clean := by
  unfold closeFinishing
  dsimp only
  split
  next => exact fun e he => FinishedPod.isCancelled_of_verdict? he
  next => exact clean_of_none rfl

theorem clean_afterFinishing (r : Run) (spec : PodSpec) (f : Finishing) (now : Nat)
    {outcome : Watch.Outcome} (h : ∀ e, outcome = .error e → e.isCancelled = false) :
    (r.afterFinishing setup spec f now outcome).Clean := by
  unfold afterFinishing
  split
  next =>
    dsimp only
    split
    next => exact clean_of_none rfl
    next => exact clean_closeFinishing r spec _ now
  next => exact clean_closeFinishing r spec _ now
  next => exact clean_closeFinishing r spec _ now
  next e _ _ =>
    have he := h e rfl
    split
    · exact clean_of_fault rfl he
    · exact clean_of_fault rfl he

theorem Clean.transition (h : r.Clean) (hc : w.cancelled = false)
    (ht : Transition setup r w r' w') : r'.Clean := by
  cases ht with
  | cancelledEarly _ hfired => exact absurd (hc.symm.trans hfired) Bool.false_ne_true
  | cancelled _ hfired => exact absurd (hc.symm.trans hfired) Bool.false_ne_true
  | buildPanicked | built | created | streamingAgain | finishingAgain => exact clean_of_none rfl
  | buildRefused | createRefused => exact clean_of_fault rfl rfl
  | asked | joinedPanicked | joined => exact h
  | streamingLook _ _ _ ha =>
    refine clean_afterStreaming _ _ _ _ fun e he => ?_
    subst he
    exact (Watch.look_of_answer ha).isCancelled
  | @announced spec s container =>
    obtain hp | hp := phase_afterNotice r spec s container w.now <;>
      exact clean_of_none (by simp only [fault?, hp])
  | joinedAll hp => exact clean_afterJoining h hp _
  | finishingLook _ _ _ ha =>
    refine clean_afterFinishing _ _ _ _ fun e he => ?_
    subst he
    exact (Watch.look_of_answer ha).isCancelled
  | @deleteRefused spec outcome _ _ hp | @deleted spec outcome _ hp =>
    have hsame : r.fault? = outcome := by simp only [fault?, hp]
    exact fun e he => h e (hsame.trans he)

/-- **A run does not end as cancelled before the token has fired.** -/
theorem Clean.event (h : e.before.Clean) (hc : e.seen.cancelled = false) (hv : e.Valid setup) :
    e.after.Clean := by
  unfold RunEvent.Valid at hv
  split at hv
  · exact h.transition hc (transition_of_act hv)
  · obtain ⟨t, result, -, -, -, hafter⟩ := transition_of_actTask hv
    rw [hafter]
    exact h

/-! ## when the token has fired -/

/-- the steps that a run makes at most once the token has fired -/
def stepsLeft (r : Run) : Nat :=
  match r.phase with
  | .start => 1
  | .creating _ => if r.timer.asked then 4 else 5
  | .streaming .. | .announcing .. | .joining .. | .finishing .. => 3
  | .deleting .. => if r.timer.asked then 1 else 2
  | .ended _ | .panicked => 0

theorem stepsLeft_le (r : Run) : r.stepsLeft ≤ 5 := by
  unfold stepsLeft
  split
  all_goals first
    | omega
    | split <;> omega

theorem stepsLeft_of_inHand? {spec : PodSpec} (h : r.inHand? = some spec) : r.stepsLeft = 3 := by
  unfold inHand? at h
  unfold stepsLeft
  split at h <;> simp_all

theorem stepsLeft_transition (hc : w.cancelled = true) (ht : Transition setup r w r' w') :
    r'.stepsLeft + 1 ≤ r.stepsLeft := by
  cases ht with
  | buildPanicked _ hfired | buildRefused _ hfired | built _ hfired | streamingLook _ hfired
  | streamingAgain _ hfired | announced _ hfired | joinedPanicked _ hfired | joined _ hfired
  | joinedAll _ hfired | finishingLook _ hfired | finishingAgain _ hfired =>
    exact absurd (hfired.symm.trans hc) Bool.false_ne_true
  | cancelledEarly hp =>
    have hbefore : r.stepsLeft = 1 := by simp only [stepsLeft, hp]
    rw [hbefore]
    exact Nat.le_refl 1
  | cancelled hp =>
    rw [stepsLeft_of_inHand? hp]
    exact Nat.le_refl 3
  | @asked call spec timer hp hfired ht =>
    obtain ⟨hbefore, hafter⟩ := Timer.asked_of_turn ht
    unfold call? at hp
    unfold inHand? at hfired
    unfold stepsLeft
    split at hp <;> simp_all
  | createRefused hp ht =>
    have hbefore : r.stepsLeft = 4 := by simp only [stepsLeft, hp, Timer.go_of_turn ht, if_true]
    rw [hbefore]
    show 0 + 1 ≤ 4
    omega
  | created hp ht =>
    have hbefore : r.stepsLeft = 4 := by simp only [stepsLeft, hp, Timer.go_of_turn ht, if_true]
    rw [hbefore]
    exact Nat.le_refl 4
  | deleteRefused hp ht | deleted hp ht =>
    have hbefore : r.stepsLeft = 1 := by simp only [stepsLeft, hp, Timer.go_of_turn ht, if_true]
    rw [hbefore]
    exact Nat.le_refl 1

/-! ## what becomes of a run then -/

/-- the calls that a run itself has made, without those of its log tasks -/
def ownCalls (past : List (RunEvent σ)) : List CallEvent :=
  (stepsOf none past).flatMap fun e => e.calls.map (·.event)

variable {past : List (RunEvent σ)} {r₀ : Run}

theorem ownCalls_concat_of_task (h : e.task ≠ none) (past : List (RunEvent σ)) :
    ownCalls (past ++ [e]) = ownCalls past := by
  rw [ownCalls, stepsOf_concat_of_ne h]
  rfl

theorem ownCalls_concat (h : e.task = none) (made : List CallRecord)
    (hl : e.left.calls = made ++ e.seen.calls) (past : List (RunEvent σ)) :
    ownCalls (past ++ [e]) = ownCalls past ++ made.reverse.map (·.event) := by
  rw [ownCalls, ← h, stepsOf_concat_self, RunEvent.flatMap_concat, h,
    RunEvent.calls_of_append made hl]
  rfl

/-- the calls that a run makes before it deletes its pod, if it has one when the token fires -/
def born? (r : Run) : Option (List CallEvent) :=
  match r.phase with
  | .creating _ => some [.created true]
  | .streaming .. | .announcing .. | .joining .. | .finishing .. => some []
  | _ => none

/-- A run since the token has fired, where it was `r₀` at that moment and has made the steps `past`
since then. -/
inductive Fate (setup : Setup σ) (r₀ : Run) (past : List (RunEvent σ)) (r : Run) : Prop where
  | waiting (h₀ : r₀.phase = .start) (hp : r.phase = .start) (ho : ownCalls past = [])
  | untouched (h₀ : r₀.phase = .start) (hp : r.phase = .ended (some (.cancelled r₀.step.name)))
      (ho : ownCalls past = [])
  | creating {spec : PodSpec} (h₀ : r₀.phase = .creating spec) (hp : r.phase = .creating spec)
      (ho : ownCalls past = [])
  /-- the pod could not be created -/
  | refused {spec : PodSpec} {error : ClusterError} (h₀ : r₀.phase = .creating spec)
      (hp : r.phase = .ended (some (.createPod spec.ref.text error)))
      (ho : ownCalls past = [.created false])
      (ha : ∃ e ∈ past, (setup.platform.create spec e.seen.state).1 = .error error)
  | held {born : List CallEvent} {spec : PodSpec} (h₀ : r₀.born? = some born)
      (hp : r.inHand? = some spec) (ho : ownCalls past = born)
  | deleting {born : List CallEvent} {spec : PodSpec} (h₀ : r₀.born? = some born)
      (hp : r.phase = .deleting spec (some (.cancelled r₀.step.name))) (ho : ownCalls past = born)
  | ended {born : List CallEvent} (ok : Bool) (h₀ : r₀.born? = some born)
      (hp : r.phase = .ended (some (.cancelled r₀.step.name)))
      (ho : ownCalls past = born ++ [.deleted ok])

namespace Fate

theorem of_start (h : Fate setup r₀ past r) (hp : r.phase = .start) :
    r₀.phase = .start ∧ ownCalls past = [] := by
  cases h with
  | waiting h₀ _ ho => exact ⟨h₀, ho⟩
  | held _ hp' => simp [inHand?, hp] at hp'
  | untouched _ hp' | creating _ hp' | refused _ hp' | deleting _ hp' | ended _ _ hp' =>
    rw [hp] at hp'
    cases hp'

theorem of_creating (h : Fate setup r₀ past r) {spec : PodSpec} (hp : r.phase = .creating spec) :
    r₀.phase = .creating spec ∧ ownCalls past = [] := by
  cases h with
  | creating h₀ hp' ho =>
    rw [hp] at hp'
    cases hp'
    exact ⟨h₀, ho⟩
  | held _ hp' => simp [inHand?, hp] at hp'
  | waiting _ hp' | untouched _ hp' | refused _ hp' | deleting _ hp' | ended _ _ hp' =>
    rw [hp] at hp'
    cases hp'

theorem of_inHand? (h : Fate setup r₀ past r) {spec : PodSpec} (hp : r.inHand? = some spec) :
    ∃ born, r₀.born? = some born ∧ ownCalls past = born := by
  cases h with
  | held h₀ _ ho => exact ⟨_, h₀, ho⟩
  | waiting _ hp' | untouched _ hp' | creating _ hp' | refused _ hp' | deleting _ hp'
  | ended _ _ hp' => simp [inHand?, hp'] at hp

theorem of_deleting (h : Fate setup r₀ past r) {spec : PodSpec} {outcome : Option RunError}
    (hp : r.phase = .deleting spec outcome) :
    outcome = some (.cancelled r₀.step.name) ∧ ∃ born, r₀.born? = some born ∧
      ownCalls past = born := by
  cases h with
  | deleting h₀ hp' ho =>
    rw [hp] at hp'
    cases hp'
    exact ⟨rfl, _, h₀, ho⟩
  | held _ hp' => simp [inHand?, hp] at hp'
  | waiting _ hp' | untouched _ hp' | creating _ hp' | refused _ hp' | ended _ _ hp' =>
    rw [hp] at hp'
    cases hp'

/-- a step that makes no call of the run itself and leaves the phase as it is -/
theorem still (h : Fate setup r₀ past r) (hp : r'.phase = r.phase)
    (ho : ownCalls (past ++ [e]) = ownCalls past) : Fate setup r₀ (past ++ [e]) r' := by
  have hin : r'.inHand? = r.inHand? := by simp only [inHand?, hp]
  cases h with
  | waiting h₀ hp' ho' => exact .waiting h₀ (hp.trans hp') (ho.trans ho')
  | untouched h₀ hp' ho' => exact .untouched h₀ (hp.trans hp') (ho.trans ho')
  | creating h₀ hp' ho' => exact .creating h₀ (hp.trans hp') (ho.trans ho')
  | refused h₀ hp' ho' ha =>
    obtain ⟨x, hx, hanswer⟩ := ha
    exact .refused h₀ (hp.trans hp') (ho.trans ho') ⟨x, List.mem_append_left _ hx, hanswer⟩
  | held h₀ hp' ho' => exact .held h₀ (hin.trans hp') (ho.trans ho')
  | deleting h₀ hp' ho' => exact .deleting h₀ (hp.trans hp') (ho.trans ho')
  | ended ok h₀ hp' ho' => exact .ended ok h₀ (hp.trans hp') (ho.trans ho')

end Fate

/-- A run since the token has fired, with the steps that it has left. -/
structure Fated (setup : Setup σ) (r₀ : Run) (past : List (RunEvent σ)) (r : Run) : Prop where
  same : r.step = r₀.step
  fate : Fate setup r₀ past r
  steps : (stepsOf none past).length + r.stepsLeft ≤ r₀.stepsLeft

/-- a run for which it matters that the token fires: one before or in its waits -/
def isPending (r : Run) : Bool :=
  match r.phase with
  | .deleting .. | .ended _ | .panicked => false
  | _ => true

theorem fated_begin (h : r.isPending = true) : Fated setup r [] r := by
  refine ⟨rfl, ?_, Nat.le_of_eq (Nat.zero_add _)⟩
  cases hp : r.phase with
  | start => exact .waiting hp hp rfl
  | creating spec => exact .creating hp hp rfl
  | streaming spec | announcing spec | joining spec | finishing spec =>
    have hborn : r.born? = some [] := by simp only [born?, hp]
    have hin : r.inHand? = some spec := by simp only [inHand?, hp]
    exact .held hborn hin rfl
  | deleting | ended | panicked => simp [isPending, hp] at h

/-- What a run has come to in the end, where the token has fired while it was `r₀` and it has made
the steps `past` since then. -/
inductive Aftermath (setup : Setup σ) (r₀ : Run) (past : List (RunEvent σ)) : Phase → Prop where
  | untouched (h₀ : r₀.phase = .start) (ho : ownCalls past = []) :
      Aftermath setup r₀ past (.ended (some (.cancelled r₀.step.name)))
  /-- the pod could not be created -/
  | refused {spec : PodSpec} {error : ClusterError} (h₀ : r₀.phase = .creating spec)
      (ho : ownCalls past = [.created false])
      (ha : ∃ e ∈ past, (setup.platform.create spec e.seen.state).1 = .error error) :
      Aftermath setup r₀ past (.ended (some (.createPod spec.ref.text error)))
  /-- there was a pod, or there came to be one, and it is deleted -/
  | deleted {born : List CallEvent} (h₀ : r₀.born? = some born) (ok : Bool)
      (ho : ownCalls past = born ++ [.deleted ok]) :
      Aftermath setup r₀ past (.ended (some (.cancelled r₀.step.name)))

theorem Fate.aftermath (h : Fate setup r₀ past r) (ho : r.isOver = true) :
    Aftermath setup r₀ past r.phase := by
  cases h with
  | waiting _ hp | creating _ hp | deleting _ hp => simp [isOver, hp] at ho
  | held _ hp =>
    unfold inHand? at hp
    unfold isOver at ho
    split at hp <;> simp_all
  | untouched h₀ hp hcalls =>
    rw [hp]
    exact .untouched h₀ hcalls
  | refused h₀ hp hcalls ha =>
    rw [hp]
    exact .refused h₀ hcalls ha
  | ended ok h₀ hp hcalls =>
    rw [hp]
    exact .deleted h₀ ok hcalls

theorem Fate.transition (h : Fate setup r₀ past e.before) (hstep : e.before.step = r₀.step)
    (he : e.task = none) (hc : e.seen.cancelled = true)
    (ht : Transition setup e.before e.seen e.after e.left) :
    Fate setup r₀ (past ++ [e]) e.after ∧ e.after.step = e.before.step := by
  obtain ⟨task, r, w, r', w'⟩ := e
  obtain rfl : task = none := he
  have ht : Transition setup r w r' w' := ht
  have hquiet (r' : Run) : ownCalls (past ++ [⟨none, r, w, r', w⟩]) = ownCalls past := by
    rw [ownCalls_concat rfl [] rfl, List.reverse_nil, List.map_nil, List.append_nil]
  cases ht with
  | buildPanicked _ hfired | buildRefused _ hfired | built _ hfired | streamingLook _ hfired
  | streamingAgain _ hfired | announced _ hfired | joinedPanicked _ hfired | joined _ hfired
  | joinedAll _ hfired | finishingLook _ hfired | finishingAgain _ hfired =>
    exact absurd (hfired.symm.trans hc) Bool.false_ne_true
  | cancelledEarly hp =>
    obtain ⟨h₀, ho⟩ := h.of_start hp
    exact ⟨.untouched h₀ (by rw [← hstep]; rfl) ((hquiet _).trans ho), rfl⟩
  | asked => exact ⟨h.still rfl (hquiet _), rfl⟩
  | createRefused hp _ ha =>
    obtain ⟨h₀, ho⟩ := h.of_creating hp
    refine ⟨.refused h₀ rfl ?_ ⟨_, List.mem_append_right past List.mem_cons_self, ?_⟩, rfl⟩
    · rw [ownCalls_concat rfl [_] rfl, ho]
      rfl
    · show (setup.platform.create _ w.state).1 = _
      rw [ha]
  | @created spec identity state hp =>
    obtain ⟨h₀, ho⟩ := h.of_creating hp
    have hborn : r₀.born? = some [.created true] := by simp only [born?, h₀]
    have hin : (r.goTo (beginStreaming setup spec) w.now).inHand? = some spec := rfl
    refine ⟨.held hborn hin ?_, rfl⟩
    rw [ownCalls_concat rfl [⟨w.now, spec.ref, .created true⟩] (by dsimp only; split <;> rfl), ho]
    rfl
  | cancelled hp =>
    obtain ⟨born, h₀, ho⟩ := h.of_inHand? hp
    exact ⟨.deleting h₀ (by rw [← hstep]; rfl) ((hquiet _).trans ho), rfl⟩
  | deleteRefused hp =>
    obtain ⟨rfl, born, h₀, ho⟩ := h.of_deleting hp
    refine ⟨.ended false h₀ rfl ?_, rfl⟩
    rw [ownCalls_concat rfl [_] rfl, ho]
    rfl
  | deleted hp =>
    obtain ⟨rfl, born, h₀, ho⟩ := h.of_deleting hp
    refine ⟨.ended true h₀ rfl ?_, rfl⟩
    rw [ownCalls_concat rfl [_] rfl, ho]
    rfl

/-- **What each step makes of a run once the token has fired.** -/
theorem Fated.event (h : Fated setup r₀ past e.before) (hc : e.seen.cancelled = true)
    (hv : e.Valid setup) : Fated setup r₀ (past ++ [e]) e.after := by
  unfold RunEvent.Valid at hv
  split at hv
  next he =>
    have ht := transition_of_act hv
    obtain ⟨hfate, hstep⟩ := h.fate.transition h.same he hc ht
    refine ⟨hstep.trans h.same, hfate, ?_⟩
    have hless := stepsLeft_transition hc ht
    have hsteps := h.steps
    rw [← he, stepsOf_concat_self, he, List.length_append, List.length_singleton]
    omega
  next id he =>
    obtain ⟨t, result, -, -, -, hafter⟩ := transition_of_actTask hv
    have hne : e.task ≠ none := by
      rw [he]
      simp
    refine ⟨by rw [hafter]; exact h.same,
      h.fate.still (by rw [hafter]) (ownCalls_concat_of_task hne past), ?_⟩
    rw [stepsOf_concat_of_ne hne, hafter]
    exact h.steps

end Run

namespace Crew

variable {setup : Setup σ} {c : Crew σ} {i : Nat} {r : Run}

/-- once the token has fired, nothing but the clock can keep a run from its next step -/
theorem able_of_cancelled (hr : c.runs[i]? = some r) (hc : c.world.cancelled = true)
    (ho : r.isOver = false) : (c.act setup (.run i)).isSome = true ∨ c.tick.isSome = true := by
  cases hact : c.act setup (.run i) with
  | some next => exact .inl rfl
  | none =>
    right
    have hrests := act_run_eq_none_iff.1 hact r hr
    unfold Run.Rests at hrests
    cases hp : r.phase with
    | start => simp [hp] at hrests
    | streaming | announcing | joining | finishing => simp [hp, hc] at hrests
    | ended | panicked => simp [Run.isOver, hp] at ho
    | creating | deleting =>
      rw [hp] at hrests
      refine isSome_tick (List.mem_append_right _ ?_) hrests
      refine List.mem_flatMap.2 ⟨r, List.mem_of_getElem? hr, List.mem_append_left _ ?_⟩
      simp only [Run.wake?, hp, Option.toList_some, List.mem_singleton]

/-- **What becomes of a run when the token has fired**, under every schedule from then on. -/
theorem fated_of_play (setup : Setup σ) (hr : c.runs[i]? = some r)
    (hc : c.world.cancelled = true) (hp : r.isPending = true) (moves : List Move) :
    ∃ r', (c.play setup moves).runs[i]? = some r' ∧
      Run.Fated setup r (c.events setup i moves) r' :=
  play_induction_of (Q := Run.Fated setup r) (fun _ _ hfired h hv => h.event hfired hv)
    moves (fun _ he => cancelled_of_mem_events hc he) hr (Run.fated_begin hp)

end Crew

end StepRunner
