import StepRunner.Proofs.Run.Token

/-!
# A run that the token does not sway

As long as the token has not fired, and where it fires when the waits of a run are over, the run
goes as it goes without the token.  The clock alone may be elsewhere: it stops at the time when the
token fires, though no run waits for it.

* `Run.act_withToken`      who does not look at the token acts as without it
* `Crew.without`           the same runs with another clock and no token
* `RunEvent.reacts`        a step of a run that ends as cancelled
* `Crew.Lags`              how far the clock without the token may be behind
* `Crew.Unswayed`          a run on its own that the token has not swayed
* `Crew.Mirrored`          moves, and those of them that lead to the same without the token
* `mirrored_play`          there are such moves for every prompt schedule
-/

namespace StepRunner

variable {σ : Type}

/-! ## another token -/

theorem LogTask.act_withToken (platform : Platform σ) (options : Text.SanitizeOptions)
    (t : LogTask) (w : World σ) (cancelled : Bool) (cancelAt : Option Nat) :
    t.act platform options (w.withToken cancelled cancelAt) =
      (t.act platform options w).map fun result =>
        { result with world := result.world.withToken cancelled cancelAt } := by
  unfold act
  cases t.phase with
  | opening timer =>
    simp only [World.withToken]
    cases timer.turn w.now (platform.delay .openLogs t.pod w.state) with
    | wait => rfl
    | ask timer => rfl
    | go => cases (platform.openLogs t.pod t.container w.state).1 <;> rfl
  | forwarding scanner times line =>
    cases line with
    | none =>
      simp only [World.withToken]
      by_cases hn : w.now < Log.lineTime scanner.reads times
      · simp only [hn, if_true]
        rfl
      · simp only [hn, if_false]
        rcases hnext : scanner.advance with ⟨_ | _, scanner', warnings⟩
        · simp only [close]
          cases scanner'.failure <;> rfl
        · rfl
    | some line =>
      simp only [World.withToken]
      by_cases ho : w.channel.isOpen = true
      · by_cases hs : w.channel.canSend = true
        · simp only [ho, hs]
          rfl
        · simp only [ho, hs]
          rfl
      · simp only [ho]
        rfl
  | ended => rfl
  | panicked => rfl

namespace Run

variable {setup : Setup σ} {r r' : Run} {w w' : World σ} {e : RunEvent σ}

/-- a run for which it does not matter that the token fires does not look at it -/
theorem act_withToken (setup : Setup σ) (r : Run) (w : World σ) (cancelled : Bool)
    (cancelAt : Option Nat) (h : cancelled = w.cancelled ∨ r.isPending = false) :
    r.act setup (w.withToken cancelled cancelAt) =
      (r.act setup w).map fun p => (p.1, p.2.withToken cancelled cancelAt) := by
  have hsame (hp : r.isPending = true) : cancelled = w.cancelled := by
    rcases h with h | h
    · exact h
    · exact absurd (h.symm.trans hp) Bool.false_ne_true
  unfold act
  cases hp : r.phase with
  | start =>
    obtain rfl := hsame (by simp only [isPending, hp])
    simp only [World.withToken]
    cases w.cancelled with
    | true => rfl
    | false => cases setup.build r.step <;> rfl
  | creating spec =>
    simp only [World.withToken]
    cases r.timer.turn w.now (setup.platform.delay .create spec.ref w.state) with
    | wait => rfl
    | ask timer => rfl
    | go =>
      rcases setup.platform.create spec w.state with ⟨e | _ | identity, state⟩ <;> rfl
  | streaming spec s =>
    obtain rfl := hsame (by simp only [isPending, hp])
    simp only [World.withToken, World.fetch]
    cases w.cancelled with
    | true => rfl
    | false =>
      cases r.timer.turn w.now (setup.platform.delay .fetch spec.ref w.state) with
      | wait => rfl
      | ask timer => rfl
      | go =>
        rcases s.watch.answer s.polls (setup.platform.fetch spec.ref w.state).1 with
          ⟨watch, _ | outcome, warnings⟩ <;> rfl
  | announcing spec s container =>
    obtain rfl := hsame (by simp only [isPending, hp])
    simp only [World.withToken]
    cases w.cancelled with
    | true => rfl
    | false =>
      by_cases hs : w.channel.canSend = true
      · simp only [hs]
        rfl
      · simp only [hs]
        rfl
  | joining spec fatal =>
    obtain rfl := hsame (by simp only [isPending, hp])
    simp only [World.withToken]
    cases w.cancelled with
    | true => rfl
    | false =>
      rcases joinable? r.tasks with _ | ⟨task, tasks⟩
      case some => cases hpanic : task.isPanicked <;> simp only [hpanic] <;> rfl
      case none =>
        cases r.tasks.isEmpty with
        | false => rfl
        | true => cases fatal.isSome && !r.failures.isEmpty <;> rfl
  | finishing spec f =>
    obtain rfl := hsame (by simp only [isPending, hp])
    simp only [World.withToken, World.fetch]
    cases w.cancelled with
    | true => rfl
    | false =>
      cases r.timer.turn w.now (setup.platform.delay .fetch spec.ref w.state) with
      | wait => rfl
      | ask timer => rfl
      | go =>
        rcases f.watch.answer f.polls (setup.platform.fetch spec.ref w.state).1 with
          ⟨watch, _ | outcome, warnings⟩ <;> rfl
  | deleting spec outcome =>
    simp only [World.withToken]
    cases r.timer.turn w.now (setup.platform.delay .delete spec.ref w.state) with
    | wait => rfl
    | ask timer => rfl
    | go =>
      rcases setup.platform.delete spec.ref w.state with ⟨_ | _, state⟩ <;> rfl
  | ended => rfl
  | panicked => rfl

theorem actTask_withToken (setup : Setup σ) (id : Nat) (r : Run) (w : World σ) (cancelled : Bool)
    (cancelAt : Option Nat) :
    r.actTask setup id (w.withToken cancelled cancelAt) =
      (r.actTask setup id w).map fun p => (p.1, p.2.withToken cancelled cancelAt) := by
  unfold actTask
  split
  next => rfl
  next t _ =>
    rw [LogTask.act_withToken]
    cases t.act setup.platform setup.config.sanitize w with
    | none => rfl
    | some result => rfl

theorem Rests.earlier (h : r.Rests w) {now : Nat} (hn : now ≤ w.now) :
    r.Rests { w with now, cancelled := false, cancelAt := none } := by
  unfold Rests at h ⊢
  split at h
  next => exact h
  next => exact Nat.lt_of_le_of_lt hn h
  next => exact Nat.lt_of_le_of_lt hn h
  next => exact ⟨rfl, Nat.lt_of_le_of_lt hn h.2⟩
  next => exact ⟨rfl, Nat.lt_of_le_of_lt hn h.2⟩
  next => exact ⟨rfl, h.2⟩
  next => exact ⟨rfl, h.2⟩
  next => trivial
  next => trivial

end Run

theorem LogTask.Rests.earlier {t : LogTask} {w : World σ} (h : t.Rests w) {now : Nat}
    (hn : now ≤ w.now) : t.Rests { w with now, cancelled := false, cancelAt := none } := by
  unfold Rests at h ⊢
  split at h
  next => exact Nat.lt_of_le_of_lt hn h
  next => exact Nat.lt_of_le_of_lt hn h
  next => exact h
  next => trivial
  next => trivial

/-! ## without the token -/

namespace Crew

variable {setup : Setup σ} {c c' : Crew σ} {r : Run} {n time : Nat} {a : Actor} {m : Move}
  {moves : List Move}

/-- the same runs at another time, and no token -/
def without (c : Crew σ) (now : Nat) : Crew σ :=
  { c with world := { c.world with now, cancelled := false, cancelAt := none } }

theorem act_without_eq_none (h : c.act setup a = none) (hn : n ≤ c.world.now) :
    (c.without n).act setup a = none := by
  cases a with
  | run k =>
    rw [act_run_eq_none_iff] at h ⊢
    exact fun r hr => (h r hr).earlier hn
  | logTask k id =>
    rw [act_logTask_eq_none_iff] at h ⊢
    exact fun r hr t ht => (h r hr t ht).earlier hn
  | reader =>
    cases hreceive : c.world.channel.receive? with
    | none => simp only [act, without, hreceive]
    | some channel => simp [act, hreceive] at h
  | canceller => rfl

theorem isIdle_without (h : c.isIdle setup = true) (hn : n ≤ c.world.now) :
    (c.without n).isIdle setup = true := by
  unfold isIdle at h ⊢
  rw [List.all_eq_true] at h ⊢
  intro a ha
  have hnone := h a ha
  rw [Option.isNone_iff_eq_none] at hnone ⊢
  exact act_without_eq_none hnone hn

end Crew

/-! ## a run that is past its waits -/

/-- whether a step is one by which a run comes to its end as cancelled -/
def RunEvent.reacts (e : RunEvent σ) : Bool :=
  e.task.isNone && e.after.fault?.any (·.isCancelled)

namespace Run

variable {setup : Setup σ} {r r' : Run} {w w' : World σ} {e : RunEvent σ}

theorem Transition.of_not_pending (ht : Transition setup r w r' w') (h : r.isPending = false) :
    r'.isPending = false ∧ r'.fault? = r.fault? := by
  cases ht with
  | cancelledEarly hp | buildPanicked hp | buildRefused hp | built hp | createRefused hp
  | created hp | streamingLook hp | streamingAgain hp | announced hp | joinedPanicked hp
  | joined hp | joinedAll hp | finishingLook hp | finishingAgain hp => simp [isPending, hp] at h
  | cancelled hp =>
    unfold inHand? at hp
    unfold isPending at h
    split at hp <;> simp_all
  | asked => exact ⟨h, rfl⟩
  | deleteRefused hp | deleted hp =>
    refine ⟨rfl, ?_⟩
    simp only [fault?, hp, goTo]

theorem of_not_pending (h : e.before.isPending = false) (hv : e.Valid setup) :
    e.after.isPending = false ∧ e.after.fault? = e.before.fault? := by
  unfold RunEvent.Valid at hv
  split at hv
  · exact (transition_of_act hv).of_not_pending h
  · obtain ⟨t, result, -, -, -, hafter⟩ := transition_of_actTask hv
    rw [hafter]
    exact ⟨h, rfl⟩

theorem not_start_of_transition (ht : Transition setup r w r' w') : r'.phase ≠ .start := by
  intro hstart
  cases ht with
  | cancelledEarly | buildPanicked | buildRefused | built | createRefused | created | cancelled
  | streamingAgain | finishingAgain | deleteRefused | deleted => cases hstart
  | asked hp =>
    unfold call? at hp
    simp [show r.phase = .start from hstart] at hp
  | joinedPanicked hp | joined hp => exact absurd (hp.symm.trans hstart) (by simp)
  | @streamingLook spec s watch outcome =>
    have hs := (afterStreaming_spec r spec { s with watch } w.now outcome).1
    simp [streamed?, hstart] at hs
  | @announced spec s container =>
    have hs := (afterNotice_spec r spec s container w.now).1
    simp [streamed?, hstart] at hs
  | @joinedAll spec fatal =>
    have hlate := (afterJoining_kept setup r spec fatal w.now).1
    simp [isEarly, hstart] at hlate
  | @finishingLook spec f watch outcome =>
    have hlate := (afterFinishing_kept setup r spec { f with watch } w.now outcome).1
    simp [isEarly, hstart] at hlate

theorem start_of_event (hv : e.Valid setup) (hstart : e.after.phase = .start) :
    e.before.phase = .start := by
  unfold RunEvent.Valid at hv
  split at hv
  · exact absurd hstart (not_start_of_transition (transition_of_act hv))
  · obtain ⟨t, result, -, -, -, hafter⟩ := transition_of_actTask hv
    rw [hafter] at hstart
    exact hstart

theorem Clean.not_reacts (h : e.after.Clean) : e.reacts = false := by
  unfold RunEvent.reacts
  cases hfault : e.after.fault? with
  | none => exact Bool.and_false _
  | some error =>
    rw [Option.any_some, h error hfault]
    exact Bool.and_false _

end Run

namespace Crew

variable {setup : Setup σ} {c c' : Crew σ} {r : Run} {n time : Nat} {a : Actor} {m : Move}
  {moves : List Move}

/-- Whether runs without the token are late: they are at the time of the others; or these have moved
on to the time when the token fires, for which no run waits. -/
def Lags (time : Nat) (c : Crew σ) (n : Nat) : Prop :=
  n = c.world.now ∨
    n < time ∧ c.world.now = time ∧ ∀ wake ∈ c.runWakes, n < wake → time < wake

theorem Lags.le (h : Lags time c n) : n ≤ c.world.now := by
  rcases h with h | ⟨h, htime, -⟩
  · omega
  · omega

theorem Lags.congr (h : Lags time c n) (hruns : c'.runs = c.runs)
    (hnow : c'.world.now = c.world.now) : Lags time c' n := by
  unfold Lags runWakes at h ⊢
  rw [hruns, hnow]
  exact h

/-- A run on its own that the token, which fires at `time`, has not kept from anything: it has not
fired yet, or it has fired when this did not matter any more.  Without the token the run would be
the same, at the time `n`. -/
structure Unswayed (time n : Nat) (c : Crew σ) (r : Run) : Prop where
  sole : c.runs = [r]
  policy : c.policy = none
  clean : r.Clean
  token : c.world.cancelled = false ∧ c.world.cancelAt = some time ∧ c.world.now ≤ time ∨
    c.world.cancelled = true ∧ c.world.cancelAt = none ∧ r.isPending = false
  begun : r.phase = .start → c.world.now < time
  lags : Lags time c n

/-- The moves `moves` and the run `r'` that they lead to, next to moves `kept` of theirs that lead
to the same without the token. -/
structure Mirrored (setup : Setup σ) (time n : Nat) (c : Crew σ) (r : Run) (moves : List Move)
    (r' : Run) (n' : Nat) (kept : List Move) : Prop where
  unswayed : Unswayed time n' (c.play setup moves) r'
  settled : r.isPending = false → r'.isPending = false
  sublist : kept.Sublist moves
  prompt : (c.without n).isPrompt setup kept = true
  same : (c.without n).play setup kept = (c.play setup moves).without n'

theorem Unswayed.get (h : Unswayed time n c r) : c.runs[0]? = some r := getElem?_of_sole h.sole

theorem Mirrored.append {r₁ r₂ : Run} {n₁ n₂ : Nat} {later kept₁ kept₂ : List Move}
    (h₁ : Mirrored setup time n c r moves r₁ n₁ kept₁)
    (h₂ : Mirrored setup time n₁ (c.play setup moves) r₁ later r₂ n₂ kept₂) :
    Mirrored setup time n c r (moves ++ later) r₂ n₂ (kept₁ ++ kept₂) where
  unswayed := by
    rw [play_append]
    exact h₂.unswayed
  settled hp := h₂.settled (h₁.settled hp)
  sublist := h₁.sublist.append h₂.sublist
  prompt := by
    rw [isPrompt_append, h₁.same]
    exact ⟨h₁.prompt, h₂.prompt⟩
  same := by
    rw [play_append, play_append, h₁.same]
    exact h₂.same

theorem Unswayed.still (h : Unswayed time n c r) (hm : m ≠ .tick)
    (hruns : (c.move setup m).runs = c.runs) (hpolicy : (c.move setup m).policy = c.policy)
    (hagrees : c.world.Agrees (c.move setup m).world)
    (hsame : (c.without n).move setup m = (c.move setup m).without n) :
    Mirrored setup time n c r [m] r n [m] where
  unswayed := by
    show Unswayed time n (c.move setup m) r
    refine ⟨hruns.trans h.sole, hpolicy.trans h.policy, h.clean, ?_, ?_, ?_⟩
    · rw [hagrees.cancelled, hagrees.cancelAt, hagrees.now]
      exact h.token
    · rw [hagrees.now]
      exact h.begun
    · exact h.lags.congr hruns hagrees.now
  settled := id
  sublist := .refl _
  prompt := isPrompt_cons_iff.2 ⟨fun htick => absurd htick hm, rfl⟩
  same := hsame

theorem Unswayed.rest (h : Unswayed time n c r) (hact : c.act setup a = none) :
    Mirrored setup time n c r [.act a] r n [.act a] := by
  have hstay : c.move setup (.act a) = c := by
    show (c.act setup a).getD c = c
    rw [hact]
    rfl
  have hm : Move.act a ≠ .tick := by simp
  apply h.still hm
  · rw [hstay]
  · rw [hstay]
  · rw [hstay]
    exact .refl _
  · rw [hstay]
    show ((c.without n).act setup a).getD (c.without n) = c.without n
    rw [act_without_eq_none hact h.lags.le]
    rfl

theorem Unswayed.clean_after {e : RunEvent σ} (h : Unswayed time n c e.before)
    (hseen : e.seen = c.world) (hv : e.Valid setup) :
    e.after.Clean ∧ (e.before.isPending = false → e.after.isPending = false) := by
  refine ⟨?_, fun hp => (Run.of_not_pending hp hv).1⟩
  rcases h.token with ⟨hc, -, -⟩ | ⟨-, -, hp⟩
  · exact h.clean.event (by rw [hseen]; exact hc) hv
  · intro error herror
    rw [(Run.of_not_pending hp hv).2] at herror
    exact h.clean error herror

theorem Unswayed.eq_now {e : RunEvent σ} (h : Unswayed time n c e.before)
    (hseen : e.seen = c.world) (hv : e.Valid setup)
    (hquiet : e.seen.now = time → e.reacts = true) : n = c.world.now := by
  rcases h.lags with hn | ⟨-, hnow, -⟩
  · exact hn
  · have hreacts := hquiet (by rw [hseen]; exact hnow)
    rw [(h.clean_after hseen hv).1.not_reacts] at hreacts
    cases hreacts

theorem Unswayed.step {e : RunEvent σ} (h : Unswayed time n c e.before)
    (hseen : e.seen = c.world) (hv : e.Valid setup) (hm : m ≠ .tick) (hn : n = c.world.now)
    {waiting : List Actor}
    (hmove : c.move setup m = { c with runs := [e.after], world := e.left, waiting })
    (hsame : (c.without n).move setup m = (c.move setup m).without n) :
    Mirrored setup time n c e.before [m] e.after n [m] where
  unswayed := by
    show Unswayed time n (c.move setup m) e.after
    rw [hmove]
    have hagrees := hv.agrees
    rw [hseen] at hagrees
    obtain ⟨hclean, hsettled⟩ := h.clean_after hseen hv
    refine ⟨rfl, h.policy, hclean, ?_, ?_, .inl (hn.trans hagrees.now.symm)⟩
    · show e.left.cancelled = _ ∧ e.left.cancelAt = _ ∧ e.left.now ≤ _ ∨
        e.left.cancelled = _ ∧ e.left.cancelAt = _ ∧ _
      rw [hagrees.cancelled, hagrees.cancelAt, hagrees.now]
      rcases h.token with hunfired | ⟨hc, hat, hp⟩
      · exact .inl hunfired
      · exact .inr ⟨hc, hat, hsettled hp⟩
    · intro hstart
      show e.left.now < time
      rw [hagrees.now]
      exact h.begun (Run.start_of_event hv hstart)
  settled := (h.clean_after hseen hv).2
  sublist := .refl _
  prompt := isPrompt_cons_iff.2 ⟨fun htick => absurd htick hm, rfl⟩
  same := hsame

theorem Unswayed.settle_eq (h : Unswayed time n c r) (r' : Run) (w : World σ) :
    settle c.policy r' w = w := by
  rw [h.policy]
  rfl

theorem Unswayed.act_run (h : Unswayed time n c r) {r' : Run} {w : World σ}
    (hact : r.act setup c.world = some (r', w))
    (hquiet : ∀ e, c.event? setup 0 (.act (.run 0)) = some e → e.seen.now = time →
      e.reacts = true) :
    Mirrored setup time n c r [.act (.run 0)] r' n [.act (.run 0)] := by
  obtain ⟨hevent, hmove⟩ := move_run h.get hact
  have hv : RunEvent.Valid setup ⟨none, r, c.world, r', w⟩ := hact
  obtain rfl := h.eq_now (e := ⟨none, r, c.world, r', w⟩) rfl hv (hquiet _ hevent)
  rw [h.settle_eq, h.sole] at hmove
  have htwin : r.act setup (c.without c.world.now).world = some (r', w.withToken false none) := by
    have hframe := Run.act_withToken setup r c.world false none ?_
    · rw [hact] at hframe
      exact hframe
    · rcases h.token with ⟨hc, -⟩ | ⟨-, -, hp⟩
      · exact .inl hc.symm
      · exact .inr hp
  have hsame : (c.without c.world.now).move setup (.act (.run 0)) =
      (c.move setup (.act (.run 0))).without c.world.now := by
    rw [hmove, (move_run (c := c.without c.world.now) h.get htwin).2]
    show ({ runs := c.runs.set 0 r', world := settle c.policy r' (w.withToken false none),
            policy := _, current := _, waiting := _ } : Crew σ) = _
    have hnow : w.now = c.world.now := hv.agrees.now
    rw [h.settle_eq, h.sole, ← hnow]
    rfl
  exact h.step (e := ⟨none, r, c.world, r', w⟩) rfl hv (by simp) rfl hmove hsame

theorem Unswayed.act_logTask (h : Unswayed time n c r) {id : Nat} {r' : Run} {w : World σ}
    (hact : r.actTask setup id c.world = some (r', w))
    (hquiet : ∀ e, c.event? setup 0 (.act (.logTask 0 id)) = some e → e.seen.now = time →
      e.reacts = true) :
    Mirrored setup time n c r [.act (.logTask 0 id)] r' n [.act (.logTask 0 id)] := by
  obtain ⟨hevent, hmove⟩ := move_logTask h.get hact
  have hv : RunEvent.Valid setup ⟨some id, r, c.world, r', w⟩ := hact
  obtain rfl := h.eq_now (e := ⟨some id, r, c.world, r', w⟩) rfl hv (hquiet _ hevent)
  rw [h.sole] at hmove
  have htwin : r.actTask setup id (c.without c.world.now).world =
      some (r', w.withToken false none) := by
    have hframe := Run.actTask_withToken setup id r c.world false none
    rw [hact] at hframe
    exact hframe
  have hsame : (c.without c.world.now).move setup (.act (.logTask 0 id)) =
      (c.move setup (.act (.logTask 0 id))).without c.world.now := by
    rw [hmove, (move_logTask (c := c.without c.world.now) h.get htwin).2]
    show ({ runs := c.runs.set 0 r', world := w.withToken false none, policy := _, current := _,
            waiting := _ } : Crew σ) = _
    have hnow : w.now = c.world.now := hv.agrees.now
    rw [h.sole, ← hnow]
    rfl
  exact h.step (e := ⟨some id, r, c.world, r', w⟩) rfl hv (by simp) rfl hmove hsame

/-- where no one can make a step, the token is not to fire now, and the run is past its start -/
theorem Unswayed.of_idle (h : Unswayed time n c r) (hidle : c.isIdle setup = true) :
    (c.world.cancelAt = some time → c.world.now < time) ∧ r.phase ≠ .start := by
  unfold isIdle at hidle
  rw [List.all_eq_true] at hidle
  have hnone (a : Actor) (ha : a ∈ c.staff) : c.act setup a = none :=
    Option.isNone_iff_eq_none.1 (hidle a ha)
  constructor
  · intro hat
    have hcanceller := hnone .canceller List.mem_cons_self
    unfold act at hcanceller
    simp only [hat] at hcanceller
    split at hcanceller
    · cases hcanceller
    · omega
  · intro hstart
    have hrun := hnone (.run 0) (by simp [staff, h.sole])
    have hrests := act_run_eq_none_iff.1 hrun r h.get
    unfold Run.Rests at hrests
    simp [hstart] at hrests

/-- no run waits for a time between that of the others and that without the token -/
theorem Lags.wakes (h : Lags time c n) {wake : Nat} (hwake : wake ∈ c.runWakes) (hn : n < wake) :
    c.world.now < wake := by
  rcases h with rfl | ⟨-, hnow, hlate⟩
  · exact hn
  · rw [hnow]
    exact hlate wake hwake hn

/-- the clock moves on; without the token it does too, or it stays where it is because all wait for
a later time -/
theorem Unswayed.move_tick (h : Unswayed time n c r) (hidle : c.isIdle setup = true) :
    ∃ n' kept, Mirrored setup time n c r [.tick] r n' kept := by
  obtain ⟨hearly, hstart⟩ := h.of_idle hidle
  cases htick : c.tick with
  | none =>
    have hstay : c.play setup [.tick] = c := by
      show c.tick.getD c = c
      rw [htick]
      rfl
    exact ⟨n, [], by rw [hstay]; exact h, id, List.nil_sublist _, rfl, by rw [hstay]; rfl⟩
  | some c' =>
    obtain ⟨now, hmem, hlt, hle, rfl⟩ := tick_eq_some_iff.1 htick
    have hplay : c.play setup [.tick] = { c with world := { c.world with now } } := by
      show c.tick.getD c = _
      rw [htick]
      rfl
    have hmoved {n' : Nat} (hlags : Lags time { c with world := { c.world with now } } n') :
        Unswayed time n' (c.play setup [.tick]) r := by
      rw [hplay]
      refine ⟨h.sole, h.policy, h.clean, ?_, fun hs => absurd hs hstart, hlags⟩
      rcases h.token with ⟨hc, hat, -⟩ | hfired
      · have hmem : time ∈ c.wakes := by
          unfold wakes
          rw [hat]
          exact List.mem_append_left _ (List.mem_singleton_self time)
        exact .inl ⟨hc, hat, hle time hmem (hearly hat)⟩
      · exact .inr hfired
    have hn := h.lags.le
    by_cases hwake : now ∈ c.runWakes
    · -- a run waits for this time, with the token and without it
      have htwin : (c.without n).tick = some (c.without now) := by
        refine tick_eq_some_iff.2 ⟨now, hwake, ?_, ?_, rfl⟩
        · show n < now
          omega
        · intro wake hmem hlater
          exact hle wake (List.mem_append_right _ hmem) (h.lags.wakes hmem hlater)
      refine ⟨now, [.tick], hmoved (.inl rfl), id, .refl _, ?_, ?_⟩
      · exact isPrompt_cons_iff.2 ⟨fun _ => isIdle_without hidle hn, rfl⟩
      · rw [hplay]
        show (c.without n).tick.getD (c.without n) = _
        rw [htwin]
        rfl
    · -- only the token makes the clock stop here
      have hat : c.world.cancelAt = some now := by
        rcases List.mem_append.1 hmem with hmem | hmem
        · exact Option.mem_toList.1 hmem
        · exact absurd hmem hwake
      obtain rfl : now = time := by
        rcases h.token with ⟨-, hat', -⟩ | ⟨-, hnone, -⟩
        · exact Option.some.inj (hat.symm.trans hat')
        · exact absurd (hat.symm.trans hnone) (by simp)
      have hlags : Lags now { c with world := { c.world with now } } n := by
        refine .inr ⟨by omega, rfl, fun wake hmem hlater => ?_⟩
        have hmem : wake ∈ c.runWakes := hmem
        have hne : wake ≠ now := fun heq => hwake (heq ▸ hmem)
        have hnext := hle wake (List.mem_append_right _ hmem) (h.lags.wakes hmem hlater)
        omega
      refine ⟨n, [], hmoved hlags, id, List.nil_sublist _, rfl, ?_⟩
      rw [hplay]
      rfl

theorem Unswayed.act_canceller (h : Unswayed time n c r)
    (hside : (c.move setup (.act .canceller)).world.cancelled = false ∨ r.isPending = false) :
    Mirrored setup time n c r [.act .canceller] r n [.act .canceller] := by
  cases hact : c.act setup .canceller with
  | none => exact h.rest hact
  | some c' =>
    have hmove : c.move setup (.act .canceller) = c' := by
      show (c.act setup .canceller).getD c = c'
      rw [hact]
      rfl
    cases acts_of_act hact with
    | canceller =>
      have hp : r.isPending = false := by
        rcases hside with hside | hp
        · rw [hmove] at hside
          cases hside
        · exact hp
      have hstart : r.phase ≠ .start := by
        intro hs
        simp [Run.isPending, hs] at hp
      refine ⟨?_, id, .refl _, rfl, ?_⟩
      · show Unswayed time n (c.move setup (.act .canceller)) r
        rw [hmove]
        exact ⟨h.sole, h.policy, h.clean, .inr ⟨rfl, rfl, hp⟩, fun hs => absurd hs hstart, h.lags⟩
      · show _ = (c.move setup (.act .canceller)).without n
        rw [hmove]
        rfl

/-- **Each move that the token does not keep from anything is a move without it**, too, or the clock
only moves to the time when the token fires. -/
theorem Unswayed.mirrored_move (h : Unswayed time n c r)
    (hprompt : m = .tick → c.isIdle setup = true)
    (hquiet : ∀ e, c.event? setup 0 m = some e → e.seen.now = time → e.reacts = true)
    (hside : (c.move setup m).world.cancelled = false ∨ r.isPending = false) :
    ∃ r' n' kept, Mirrored setup time n c r [m] r' n' kept := by
  cases m with
  | tick =>
    obtain ⟨n', kept, hkept⟩ := h.move_tick (hprompt rfl)
    exact ⟨r, n', kept, hkept⟩
  | pass current waiting => exact ⟨r, n, _, h.still (by simp) rfl rfl (.refl _) rfl⟩
  | act a =>
    cases a with
    | canceller => exact ⟨r, n, _, h.act_canceller hside⟩
    | reader =>
      cases hreceive : c.world.channel.receive? with
      | none => exact ⟨r, n, _, h.rest (by simp only [act, hreceive])⟩
      | some channel =>
        have hmove : c.move setup (.act .reader) =
            { c with world := { c.world with channel } } := by
          simp only [move, act, hreceive, Option.getD_some]
        have hsame : (c.without n).move setup (.act .reader) =
            (c.move setup (.act .reader)).without n := by
          rw [hmove]
          simp only [move, act, without, hreceive, Option.getD_some]
        refine ⟨r, n, _, h.still (by simp) ?_ ?_ ?_ hsame⟩
        · rw [hmove]
        · rw [hmove]
        · rw [hmove]
          exact ⟨rfl, rfl, rfl⟩
    | run k =>
      cases k with
      | zero =>
        cases hact : r.act setup c.world with
        | none => exact ⟨r, n, _, h.rest (by simp only [act, h.get, hact])⟩
        | some p => exact ⟨p.1, n, _, h.act_run hact hquiet⟩
      | succ k => exact ⟨r, n, _, h.rest (by simp [act, h.sole])⟩
    | logTask k id =>
      cases k with
      | zero =>
        cases hact : r.actTask setup id c.world with
        | none => exact ⟨r, n, _, h.rest (by simp only [act, h.get, hact])⟩
        | some p => exact ⟨p.1, n, _, h.act_logTask hact hquiet⟩
      | succ k => exact ⟨r, n, _, h.rest (by simp [act, h.sole])⟩

theorem Unswayed.mirrored_play (h : Unswayed time n c r) (moves : List Move)
    (hprompt : c.isPrompt setup moves = true)
    (hquiet : ∀ e ∈ c.events setup 0 moves, e.seen.now = time → e.reacts = true)
    (hside : (c.play setup moves).world.cancelled = false ∨ r.isPending = false) :
    ∃ r' n' kept, Mirrored setup time n c r moves r' n' kept := by
  induction moves generalizing c r n with
  | nil => exact ⟨r, n, [], h, id, .refl _, rfl, rfl⟩
  | cons m moves ih =>
    rw [isPrompt_cons_iff] at hprompt
    rw [play_cons] at hside
    simp only [events, List.mem_append, Option.mem_toList] at hquiet
    have hfirst : (c.move setup m).world.cancelled = false ∨ r.isPending = false :=
      hside.imp_left unfired_of_play
    obtain ⟨r', n', kept, hmove⟩ :=
      h.mirrored_move hprompt.1 (fun e he => hquiet e (.inl he)) hfirst
    obtain ⟨r'', n'', kept', hplay⟩ := ih hmove.unswayed hprompt.2
      (fun e he => hquiet e (.inr he)) (hside.imp_right hmove.settled)
    exact ⟨r'', n'', kept ++ kept', hmove.append hplay⟩

end Crew

end StepRunner
