import StepRunner.Proofs.Run.Unswayed

/-!
# Cancelling one step

A token that fires ends a run that is waiting, and only such a run.

* `Run.Forestalled`      a run that the token has overtaken before its start
* `play_forestalled`     it asks nothing of anyone
* `own_of_prompt`        once the token has fired, no log task makes a step
* `Crew.Overtaken`       what becomes of a run that has begun
* `Crew.FiresAt`         a schedule in which the token fires at some time
* `cancelled_of_play`    what becomes of a run in every case
-/

namespace StepRunner

variable {σ : Type}

/-! ## a token that has fired before the start -/

namespace Run

variable {setup : Setup σ} {r r' : Run} {w w' : World σ} {e : RunEvent σ} {step : StepDefinition}

/-- a run of `step` that makes no step but to end as cancelled -/
structure Forestalled (step : StepDefinition) (r : Run) : Prop where
  same : r.step = step
  tasks : r.tasks = []
  phase : r.phase = .start ∨ r.phase = .ended (some (.cancelled step.name))

theorem Forestalled.act_eq (h : Forestalled step r) (hc : w.cancelled = true)
    (setup : Setup σ) :
    r.act setup w = none ∨
      r.act setup w = some (r.goTo (.ended (some (.cancelled step.name))) w.now, w) := by
  unfold act
  rcases h.phase with hp | hp
  · right
    simp only [hp, hc, if_true, h.same]
  · left
    simp only [hp]

theorem Forestalled.act_congr (h : Forestalled step r) (hc : w.cancelled = true)
    (setup other : Setup σ) : r.act other w = r.act setup w := by
  unfold act
  rcases h.phase with hp | hp
  · simp only [hp, hc, if_true]
  · simp only [hp]

theorem Forestalled.ended (h : Forestalled step r) (ho : r.isOver = true) :
    r.phase = .ended (some (.cancelled step.name)) := by
  rcases h.phase with hp | hp
  · simp [isOver, hp] at ho
  · exact hp

theorem Forestalled.not_rests (h : Forestalled step r) (ho : r.isOver = false) : ¬ r.Rests w := by
  rcases h.phase with hp | hp
  · simp [Rests, hp]
  · simp [isOver, hp] at ho

theorem Forestalled.actTask_eq_none (h : Forestalled step r) (id : Nat) :
    r.actTask setup id w = none := by
  unfold actTask
  rw [h.tasks]
  rfl

theorem Forestalled.event (h : Forestalled step e.before) (hc : e.seen.cancelled = true)
    (hv : e.Valid setup) : Forestalled step e.after ∧ e.left = e.seen := by
  unfold RunEvent.Valid at hv
  split at hv
  next =>
    rcases h.act_eq hc setup with hact | hact
    · rw [hact] at hv
      cases hv
    · rw [hact] at hv
      obtain ⟨hafter, hleft⟩ := Prod.mk.inj (Option.some.inj hv)
      rw [← hafter]
      exact ⟨⟨h.same, h.tasks, .inr rfl⟩, hleft.symm⟩
  next id _ =>
    rw [h.actTask_eq_none] at hv
    cases hv

end Run

namespace Crew

variable {setup : Setup σ} {c c' : Crew σ} {r : Run} {step : StepDefinition} {moves : List Move}

theorem move_forestalled (hr : c.runs = [r]) (h : r.Forestalled step)
    (hc : c.world.cancelled = true) (setup other : Setup σ) (m : Move) :
    c.move other m = c.move setup m := by
  cases m with
  | tick => rfl
  | pass current waiting => rfl
  | act a =>
    cases a with
    | reader => rfl
    | canceller => rfl
    | run k =>
      cases k with
      | zero => simp [move, act, hr, h.act_congr hc setup other]
      | succ k => simp [move, act, hr]
    | logTask k id =>
      cases k with
      | zero => simp [move, act, hr, h.actTask_eq_none]
      | succ k => simp [move, act, hr]

/-- a run that the token has forestalled asks nothing of anyone -/
theorem play_forestalled (hr : c.runs = [r]) (h : r.Forestalled step)
    (hc : c.world.cancelled = true) (setup other : Setup σ) (moves : List Move) :
    c.play other moves = c.play setup moves := by
  induction moves generalizing c r with
  | nil => rfl
  | cons m moves ih =>
    rw [play_cons, play_cons, move_forestalled hr h hc setup other]
    rcases move_view_of_sole hr m with ⟨hr', -⟩ | ⟨e, hv, rfl, hseen, hr', -⟩
    · exact ih hr' h (cancelled_move hc)
    · have hnext := (h.event (by rw [hseen]; exact hc) hv).1
      exact ih hr' hnext (cancelled_move hc)

theorem forestalled_of_play (hr : c.runs = [r]) (h : r.Forestalled step)
    (hc : c.world.cancelled = true) (moves : List Move) :
    ∃ r', (c.play setup moves).runs = [r'] ∧ r'.Forestalled step ∧
      ∀ e ∈ c.events setup 0 moves, e.left = e.seen := by
  have hstep (past : List (RunEvent σ)) (e : RunEvent σ) (hfired : e.seen.cancelled = true)
      (h : e.before.Forestalled step ∧ ∀ x ∈ past, x.left = x.seen) (hv : e.Valid setup) :
      e.after.Forestalled step ∧ ∀ x ∈ past ++ [e], x.left = x.seen := by
    obtain ⟨hafter, hsame⟩ := h.1.event hfired hv
    exact ⟨hafter, List.forall_mem_append.2 ⟨h.2, List.forall_mem_singleton.2 hsame⟩⟩
  obtain ⟨r', hr', hforestalled⟩ := play_induction_of
    (Q := fun past r => r.Forestalled step ∧ ∀ x ∈ past, x.left = x.seen) hstep moves
    (fun _ he => cancelled_of_mem_events hc he) (getElem?_of_sole hr) ⟨h, by simp⟩
  exact ⟨r', sole_play hr hr', hforestalled⟩

theorem calls_play_of_unchanged {calls : List CallRecord} (hr : c.runs = [r])
    (h : r.Conforms setup step calls) (moves : List Move)
    (hsame : ∀ e ∈ c.events setup 0 moves, e.left = e.seen) :
    (c.play setup moves).world.calls = c.world.calls := by
  have hnone : (c.events setup 0 moves).flatMap (·.calls) = [] := by
    refine List.flatMap_eq_nil_iff.2 fun e he => ?_
    rw [RunEvent.calls_of_append [] (by rw [hsame e he]; rfl)]
    rfl
  rw [calls_play_of_sole hr h moves, hnone]
  rfl

theorem able_of_forestalled (hr : c.runs = [r]) (h : r.Forestalled step)
    (ho : r.isOver = false) : (c.act setup (.run 0)).isSome = true := by
  cases hact : c.act setup (.run 0) with
  | some next => rfl
  | none => exact absurd (act_run_eq_none_iff.1 hact r (getElem?_of_sole hr)) (h.not_rests ho)

end Crew

/-! ## a token that fires before the end of the waits -/

namespace Run

variable {setup : Setup σ} {r r' : Run} {w w' : World σ} {e : RunEvent σ} {step : StepDefinition}

theorem Rests.not_inHand (h : r.Rests w) (hc : w.cancelled = true) : r.inHand? = none := by
  unfold Rests at h
  unfold inHand?
  split at h <;> simp_all

theorem Transition.tasks_eq_nil (ht : Transition setup r w r' w') (hc : w.cancelled = true)
    (h : r.tasks = [] ∨ r.inHand?.isSome = true) : r'.tasks = [] := by
  have hnil (hin : r.inHand? = none) : r.tasks = [] := by
    rcases h with h | h
    · exact h
    · rw [hin] at h
      cases h
  cases ht with
  | buildPanicked _ hfired | buildRefused _ hfired | built _ hfired | streamingLook _ hfired
  | streamingAgain _ hfired | announced _ hfired | joinedPanicked _ hfired | joined _ hfired
  | joinedAll _ hfired | finishingLook _ hfired | finishingAgain _ hfired =>
    exact absurd (hfired.symm.trans hc) Bool.false_ne_true
  | cancelledEarly hp | createRefused hp | created hp | deleteRefused hp | deleted hp =>
    exact hnil (by simp only [inHand?, hp])
  | asked _ hfired =>
    refine hnil ?_
    cases hin : r.inHand? with
    | none => rfl
    | some spec => exact absurd ((hfired (by rw [hin]; rfl)).symm.trans hc) Bool.false_ne_true
  | cancelled => rfl

end Run

namespace Crew

variable {setup : Setup σ} {c : Crew σ} {r : Run} {step : StepDefinition} {moves : List Move}
  {time : Nat} {m : Move}

/-- a run whose log tasks, if it has any, will be dropped at this very time -/
def Alone (time : Nat) (c : Crew σ) (r : Run) : Prop :=
  r.tasks = [] ∨ c.world.now = time ∧ r.inHand?.isSome = true

theorem own_of_prompt (hr : c.runs = [r]) (hc : c.world.cancelled = true) (h : Alone time c r)
    (hprompt : c.isPrompt setup moves = true)
    (hquiet : ∀ e ∈ c.events setup 0 moves, e.seen.now = time → e.reacts = true) :
    ∀ e ∈ c.events setup 0 moves, e.task = none := by
  induction moves generalizing c r with
  | nil =>
    intro e he
    cases he
  | cons m moves ih =>
    have hget := getElem?_of_sole hr
    rw [isPrompt_cons_iff] at hprompt
    simp only [events, List.mem_append, Option.mem_toList] at hquiet ⊢
    have hrest (r' : Run) (hr' : (c.move setup m).runs[0]? = some r')
        (halone : Alone time (c.move setup m) r') :=
      ih (sole_move hr hr') (cancelled_move hc) halone hprompt.2
        fun e he => hquiet e (.inr he)
    rcases move_view hget m with ⟨hevent, hr'⟩ | ⟨e, hevent, hv, rfl, hseen, hr', -⟩
    · have halone : Alone time (c.move setup m) r := by
        rcases h with hnil | ⟨hnow, hin⟩
        · exact .inl hnil
        · refine .inr ⟨?_, hin⟩
          by_cases hm : m = .tick
          · -- a run that has yet to drop its log tasks can do so now
            have hidle := hprompt.1 hm
            unfold isIdle at hidle
            have hrun := List.all_eq_true.1 hidle (.run 0) (by simp [staff, hr])
            rw [Option.isNone_iff_eq_none, act_run_eq_none_iff] at hrun
            rw [(hrun r hget).not_inHand hc] at hin
            cases hin
          · rw [now_move hm]
            exact hnow
      rintro x (hx | hx)
      · rw [hevent] at hx
        cases hx
      · exact hrest r hr' halone x hx
    · have hown : e.task = none := by
        rcases h with hnil | ⟨hnow, -⟩
        · cases htask : e.task with
          | none => rfl
          | some id =>
            unfold RunEvent.Valid at hv
            simp [htask, Run.actTask, hnil] at hv
        · have hreacts := hquiet e (.inl hevent) (by rw [hseen]; exact hnow)
          unfold RunEvent.reacts at hreacts
          rw [Bool.and_eq_true, Option.isNone_iff_eq_none] at hreacts
          exact hreacts.1
      have hnil : e.after.tasks = [] := by
        unfold RunEvent.Valid at hv
        rw [hown] at hv
        rw [← hseen] at hc
        exact (Run.transition_of_act hv).tasks_eq_nil hc (h.imp_right And.right)
      rintro x (hx | hx)
      · rw [hevent] at hx
        cases hx
        exact hown
      · exact hrest e.after hr' (.inl hnil) x hx

/-- What becomes of a run on its own, from the moment `fired` when the token fires while it is `r`:
the steps `late` lead it to `r'`. -/
structure Overtaken (setup : Setup σ) (fired : Crew σ) (r : Run) (after : List Move) (r' : Run) :
    Prop where
  own : ∀ e ∈ fired.events setup 0 after, e.task = none
  few : (fired.events setup 0 after).length ≤ 5
  calls : (fired.play setup after).world.calls =
    ((fired.events setup 0 after).flatMap (·.calls)).reverse ++ fired.world.calls
  ended : r'.isOver = true → r.Aftermath setup (fired.events setup 0 after) r'.phase
  able : r'.isOver = false → ((fired.play setup after).act setup (.run 0)).isSome = true ∨
    (fired.play setup after).tick.isSome = true

theorem overtaken_of_play {calls : List CallRecord} (hr : c.runs = [r])
    (hconf : r.Conforms setup step calls) (hc : c.world.cancelled = true)
    (hnow : c.world.now = time) (hp : r.isPending = true)
    (hprompt : c.isPrompt setup moves = true)
    (hquiet : ∀ e ∈ c.events setup 0 moves, e.seen.now = time → e.reacts = true) :
    ∃ r', (c.play setup moves).runs = [r'] ∧ Overtaken setup c r moves r' := by
  obtain ⟨r', hr', hfated⟩ := fated_of_play setup (getElem?_of_sole hr) hc hp moves
  have halone : Alone time c r := by
    cases hs : r.streamed? with
    | none => exact .inl (hconf.tidy.tasks_eq_nil hs)
    | some spec =>
      refine .inr ⟨hnow, ?_⟩
      unfold Run.streamed? at hs
      unfold Run.inHand?
      split at hs <;> simp_all
  have hown := own_of_prompt hr hc halone hprompt hquiet
  have hall : Run.stepsOf none (c.events setup 0 moves) = c.events setup 0 moves := by
    refine List.filter_eq_self.2 fun e he => ?_
    simp [hown e he]
  have hsteps := hfated.steps
  have hle := r.stepsLeft_le
  rw [hall] at hsteps
  exact ⟨r', sole_play hr hr', hown, by omega, calls_play_of_sole hr hconf moves,
    hfated.fate.aftermath, fun ho => able_of_cancelled hr' (cancelled_play hc moves) ho⟩

/-! ## the cancellation of a step -/

/-- a builder that refuses is not overruled by a token that fires later -/
theorem declined_of_play {reason : String} (hb : setup.build step = .refused reason)
    (hr : c.runs[0]? = some ({ step } : Run)) (moves : List Move)
    (hc : (c.play setup moves).world.cancelled = false) :
    ∃ r, (c.play setup moves).runs[0]? = some r ∧ r.tasks = [] ∧
      (r.phase = .start ∨ r.phase = .ended (some (.buildPodSpec step.name reason))) := by
  have hstep (past : List (RunEvent σ)) (e : RunEvent σ) (hunc : e.seen.cancelled = false)
      (h : e.before.step = step ∧ e.before.tasks = [] ∧
        (e.before.phase = .start ∨
          e.before.phase = .ended (some (.buildPodSpec step.name reason))))
      (hv : e.Valid setup) :
      e.after.step = step ∧ e.after.tasks = [] ∧
        (e.after.phase = .start ∨
          e.after.phase = .ended (some (.buildPodSpec step.name reason))) := by
    obtain ⟨hsame, hnil, hphase⟩ := h
    unfold RunEvent.Valid at hv
    split at hv
    next =>
      unfold Run.act at hv
      rcases hphase with hp | hp
      · simp only [hp, hunc, hsame, hb] at hv
        obtain ⟨hafter, -⟩ := Prod.mk.inj (Option.some.inj hv)
        rw [← hafter]
        exact ⟨hsame, hnil, .inr rfl⟩
      · simp only [hp] at hv
        cases hv
    next id _ =>
      unfold Run.actTask at hv
      rw [hnil] at hv
      cases hv
  obtain ⟨r, hr', -, hdeclined⟩ := play_induction_of
    (Q := fun _ r => r.step = step ∧ r.tasks = [] ∧
      (r.phase = .start ∨ r.phase = .ended (some (.buildPodSpec step.name reason))))
    hstep moves (fun _ he => unfired_of_mem_events hc he) hr ⟨rfl, rfl, .inl rfl⟩
  exact ⟨r, hr', hdeclined⟩

/-- A schedule of one step, in which the token fires at `time`, between `before` and `after`.  It
does so after the step was asked for, and at a time at which the run itself does nothing. -/
structure FiresAt (setup : Setup σ) (step : StepDefinition) (world : World σ) (time : Nat)
    (before after : List Move) : Prop where
  later : world.now < time
  unfired : ((ofRuns [{ step }] (world.withToken false (some time)) none).play setup
    before).world.cancelled = false
  fired : ((ofRuns [{ step }] (world.withToken false (some time)) none).play setup
    (before ++ [.act .canceller])).world.cancelled = true
  prompt : (ofRuns [{ step }] (world.withToken false (some time)) none).isPrompt setup
    (before ++ .act .canceller :: after) = true
  quiet : ∀ e ∈ (ofRuns [{ step }] (world.withToken false (some time)) none).events setup 0
    (before ++ .act .canceller :: after), e.seen.now = time → e.reacts = true

theorem move_canceller (hc : c.world.cancelled = false)
    (hfired : (c.move setup (.act .canceller)).world.cancelled = true) :
    ∃ time, c.world.cancelAt = some time ∧ time ≤ c.world.now ∧
      c.move setup (.act .canceller) =
        { c with world := { c.world with cancelled := true, cancelAt := none } } := by
  cases hat : c.world.cancelAt with
  | none =>
    have hstay : (c.move setup (.act .canceller)).world.cancelled = c.world.cancelled := by
      simp only [move, act, hat, Option.getD_none]
    rw [hstay, hc] at hfired
    cases hfired
  | some time =>
    by_cases hnow : time ≤ c.world.now
    · exact ⟨time, rfl, hnow, by simp only [move, act, hat, hnow, if_true, Option.getD_some]⟩
    · have hstay : (c.move setup (.act .canceller)).world.cancelled = c.world.cancelled := by
        simp only [move, act, hat, hnow, if_false, Option.getD_none]
      rw [hstay, hc] at hfired
      cases hfired

theorem Unswayed.fires {n : Nat} (h : Unswayed time n c r) (hc : c.world.cancelled = false)
    (hfired : (c.move setup (.act .canceller)).world.cancelled = true) :
    c.world.now = time ∧ c.move setup (.act .canceller) =
      { c with world := { c.world with cancelled := true, cancelAt := none } } := by
  obtain ⟨time', hat, hnow, hmove⟩ := move_canceller hc hfired
  rcases h.token with ⟨-, hat', hle⟩ | ⟨hc', -⟩
  · obtain rfl : time' = time := Option.some.inj (hat.symm.trans hat')
    exact ⟨Nat.le_antisymm hle hnow, hmove⟩
  · rw [hc'] at hc
    cases hc

/-- **The cancellation of one step.**  If the token has fired before the step is asked for, the step
ends as cancelled, whatever builder and platform are like, and without asking them anything.
Otherwise let the token fire between `before` and `after`.  So far, the run has gone as it goes
without the token.  If it is building or creating its pod or waiting for it, the failure to build or
create the pod is what it ends with; or else it ends as cancelled, with no other call than the
deletion of the pod, which is made once.  If its waits are over, it goes on as it goes without the
token, to the same end, with the same calls and the same lines. -/
theorem cancelled_of_play (setup : Setup σ) (step : StepDefinition) (world : World σ) :
    (∀ cancelAt moves,
      let c := ofRuns [{ step }] (world.withToken true cancelAt) none
      let last := c.play setup moves
      (∀ other : Setup σ, c.play other moves = last) ∧ last.world.calls = world.calls ∧
      (∀ e ∈ c.events setup 0 moves, e.left = e.seen) ∧
      ∃ r, last.runs = [r] ∧
        (r.isOver = true → r.phase = .ended (some (.cancelled step.name))) ∧
        (r.isOver = false → (last.act setup (.run 0)).isSome = true)) ∧
    ∀ time before after, FiresAt setup step world time before after →
      let never := ofRuns [{ step }] (world.withToken false none) none
      let armed := ofRuns [{ step }] (world.withToken false (some time)) none
      let fired := armed.play setup (before ++ [.act .canceller])
      let last := armed.play setup (before ++ .act .canceller :: after)
      ∃ r r' kept n, fired.runs = [r] ∧ last.runs = [r'] ∧ r.phase ≠ .start ∧
        (kept.Sublist before ∧ never.isPrompt setup kept = true ∧
          never.play setup kept = fired.without n) ∧
        (∀ reason, setup.build step = .refused reason →
          r'.phase = .ended (some (.buildPodSpec step.name reason))) ∧
        (r.isPending = true → Overtaken setup fired r after r') ∧
        (r.isPending = false → ∃ more n',
          (kept ++ more).Sublist (before ++ .act .canceller :: after) ∧
          never.isPrompt setup (kept ++ more) = true ∧
          never.play setup (kept ++ more) = last.without n') ∧
        ∃ calls rest final, last.world.calls = calls.reverse ++ world.calls ∧
          Lifecycle (setup.build step) (calls ++ rest) final ∧
          (r'.isOver = true → rest = [] ∧ final = r'.phase) := by
  constructor
  · intro cancelAt moves c last
    have hbegin : Run.Forestalled step { step } := ⟨rfl, rfl, .inl rfl⟩
    obtain ⟨r, hr, hforestalled, hleft⟩ := forestalled_of_play (c := c) rfl hbegin rfl moves
    exact ⟨fun other => play_forestalled rfl hbegin rfl setup other moves,
      calls_play_of_unchanged (c := c) rfl (Run.conforms_begin setup step) moves hleft, hleft,
      r, hr, hforestalled.ended, able_of_forestalled hr hforestalled⟩
  · intro time before after h never armed fired last
    have hbegin : Unswayed time world.now armed { step } :=
      ⟨rfl, rfl, Run.clean_of_none rfl, .inl ⟨rfl, rfl, Nat.le_of_lt h.later⟩, fun _ => h.later,
        .inl rfl⟩
    have hprompt := h.prompt
    rw [isPrompt_append] at hprompt
    have hquiet := h.quiet
    rw [events_append] at hquiet
    -- until the token fires
    obtain ⟨r, n, kept, hkept⟩ := hbegin.mirrored_play before hprompt.1
      (fun e he => hquiet e (List.mem_append_left _ he)) (.inl h.unfired)
    have hfiredAt : fired = (armed.play setup before).move setup (.act .canceller) :=
      play_append setup armed before [.act .canceller]
    have hlast : last = fired.play setup after := by
      rw [hfiredAt]
      exact play_append setup armed before (.act .canceller :: after)
    obtain ⟨hnow, hfired⟩ := hkept.unswayed.fires h.unfired (by rw [← hfiredAt]; exact h.fired)
    rw [← hfiredAt] at hfired
    have hstart : r.phase ≠ .start := by
      intro hs
      have hlt := hkept.unswayed.begun hs
      omega
    have hr : fired.runs = [r] := by
      rw [hfired]
      exact hkept.unswayed.sole
    have hbefore : never.play setup kept = fired.without n := by
      rw [hfired]
      exact hkept.same
    -- and since then
    obtain ⟨r', calls, hr', hconf', hcalls⟩ := conforms_play (c := armed) setup step
      (before ++ .act .canceller :: after) rfl (Run.conforms_begin setup step) rfl
    obtain ⟨rest, final, hlife⟩ := hconf'.lifecycle
    refine ⟨r, r', kept, n, hr, hr', hstart, ⟨hkept.sublist, hkept.prompt, hbefore⟩, ?refused,
      ?pending, ?waited, calls, rest, final, hcalls, hlife⟩
    case refused =>
      intro reason hb
      obtain ⟨s, hs, hnil, hphase⟩ := declined_of_play hb rfl before h.unfired
      obtain rfl : r = s := Option.some.inj (hkept.unswayed.get.symm.trans hs)
      have hend := hphase.resolve_left hstart
      have ho : r.isOver = true := by simp only [Run.isOver, hend]
      have hstay : last.runs = [r] := by rw [hlast, runs_play_of_isOver hr ho hnil]
      obtain rfl : r = r' := List.singleton_inj.1 (hstay.symm.trans hr')
      exact hend
    case pending =>
      intro hp
      obtain ⟨s, calls, hs, hconf, -⟩ := conforms_play (c := armed) setup step before rfl
        (Run.conforms_begin setup step) rfl
      obtain rfl : r = s := List.singleton_inj.1 (hkept.unswayed.sole.symm.trans hs)
      have hpromptAfter := (isPrompt_cons_iff.1 hprompt.2).2
      rw [← hfiredAt] at hpromptAfter
      have hquietAfter (e : RunEvent σ) (he : e ∈ fired.events setup 0 after) :
          e.seen.now = time → e.reacts = true := by
        rw [hfiredAt] at he
        exact hquiet e (List.mem_append_right _ he)
      obtain ⟨s', hs', hover⟩ := overtaken_of_play hr hconf (by rw [hfired])
        (by rw [hfired]; exact hnow) hp hpromptAfter hquietAfter
      rw [← hlast, hr'] at hs'
      obtain rfl : r' = s' := List.singleton_inj.1 hs'
      exact hover
    case waited =>
      intro hp
      obtain ⟨s', n', more, hmore⟩ := hkept.unswayed.mirrored_play (.act .canceller :: after)
        hprompt.2 (fun e he => hquiet e (List.mem_append_right _ he)) (.inr hp)
      have hboth := hkept.append hmore
      exact ⟨more, n', hboth.sublist, hboth.prompt, hboth.same⟩

/-- a token that fires between two lines of a log stream -/
theorem cancelled_of_slow_logs :
    let spec : PodSpec :=
      { name := "p", namespaceName := "ns", containers := [{ name := "a", image := "i" }] }
    let platform : Platform Unit :=
      { create := fun _ _ => (.ok none, ())
        fetch := fun _ _ => (.ok { phase := .running, statuses := [.running "a" true] }, ())
        openLogs := fun _ _ _ =>
          (.stream { arrivals := [⟨.data [0x68, 0x69, 0x0A], 0⟩, ⟨.data [0x68, 0x6F, 0x0A], 100⟩]
                     closing := 200 }, ())
        delete := fun _ _ => (.ok (), ())
        delay := fun call _ _ => match call with
          | .create => 3
          | .fetch | .openLogs => 1
          | .delete => 2 }
    let setup : Setup Unit := ⟨platform, {}, fun _ => .spec spec⟩
    let step : StepDefinition := { name := "s", image := "i" }
    let world : World Unit := { state := (), channel := { room := 9 } }
    let run (times : Nat) : List Move := List.replicate times (.act (.run 0))
    let task (times : Nat) : List Move := List.replicate times (.act (.logTask 0 0))
    let before := run 2 ++ .tick :: run 2 ++ .tick :: run 2 ++ task 1 ++ .tick :: task 3 ++ [.tick]
    let after := run 2 ++ .tick :: run 1
    let last := (ofRuns [{ step }] (world.withToken false (some 50)) none).play setup
      (before ++ .act .canceller :: after)
    FiresAt setup step world 50 before after ∧
      ∃ r, last.runs = [r] ∧ r.phase = .ended (some (.cancelled "s")) ∧
        last.world.calls.map (·.event) =
          [.deleted true, .opened "a", .fetched true, .created true] ∧
        last.world.channel.delivered = [.containerReady "s" "a", .output "s" "a" "hi"] := by
  intro spec platform setup step world run task before after last
  have hquiet : ((ofRuns [{ step }] (world.withToken false (some 50)) none).events setup 0
      (before ++ .act .canceller :: after)).all (fun e => e.seen.now ≠ 50 || e.reacts) = true := by
    decide +kernel
  have hfires : FiresAt setup step world 50 before after := by
    refine ⟨by decide, by decide +kernel, by decide +kernel, by decide +kernel, fun e he hnow => ?_⟩
    have hall := List.all_eq_true.1 hquiet e he
    simpa [hnow] using hall
  refine ⟨hfires, ?_⟩
  obtain ⟨r, r', kept, n, hr, hr', -, -, -, hpending, -⟩ :=
    (cancelled_of_play setup step world).2 50 before after hfires
  have hfired : ((ofRuns [{ step }] (world.withToken false (some 50)) none).play setup
      (before ++ [.act .canceller])).runs.all (fun r => r.isPending && r.inHand?.isSome &&
        r.step.name = "s") = true := by decide +kernel
  rw [hr] at hfired
  simp only [List.all_cons, List.all_nil, Bool.and_true, Bool.and_eq_true,
    decide_eq_true_eq] at hfired
  obtain ⟨⟨hp, hin⟩, hname⟩ := hfired
  have hover : last.runs.all (·.isOver) = true := by decide +kernel
  rw [hr', List.all_cons, List.all_nil, Bool.and_true] at hover
  refine ⟨r', hr', ?_, by decide +kernel, by decide +kernel⟩
  have hafter := (hpending hp).ended hover
  generalize r'.phase = final at hafter
  cases hafter with
  | untouched h₀ => simp [Run.inHand?, h₀] at hin
  | refused h₀ => simp [Run.inHand?, h₀] at hin
  | deleted => rw [hname]

end Crew

end StepRunner
