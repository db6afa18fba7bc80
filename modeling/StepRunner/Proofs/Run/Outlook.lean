import StepRunner.Proofs.Run.Course

/-!
# What log tasks have still to do, and when

Where a log task is not late, it is settled when it is started what it will have called and failed
with in the end, when it opens its stream, and when it is over: a call is made when it is time for it
and takes as long as the platform says, a line is read when it is there, and sending takes no time.
With a reader a log task is over when the end of its stream is there; without one, as soon as it has
a line.

* `World.record`                 the calls so far, with their times
* `Timer.effect`                 when a call has its effect
* `LogOpening.leaves`            when all is there of a log stream that is gone through
* `Audience`                     whether there is a reader, and which log streams are considered
* `Outlook`, `LogTask.outlook`   what a log task has still to call, and when, and to fail with
* `LogTask.InTime`               a log task that is not late
* `outlook_of_transition`        what it does in a step it has not to do any more
-/

namespace StepRunner

variable {σ : Type}

/-- the calls so far, the oldest first -/
def World.record (w : World σ) : List CallRecord := w.calls.reverse

theorem World.record_of_append {w w' : World σ} {made : List CallRecord}
    (h : w'.calls = made.reverse ++ w.calls) : w'.record = w.record ++ made := by
  rw [record, record, h, List.reverse_append, List.reverse_reverse]

theorem own_eq_nil {calls : List CallRecord} (h : ∀ c ∈ calls, c.event.isOpened = true) :
    calls.filter (!·.event.isOpened) = [] := by
  rw [List.filter_eq_nil_iff]
  intro c hc
  simp [h c hc]

/-! ## timers -/

theorem le_wakeTime (now pause : Nat) : now ≤ wakeTime now pause := Nat.le_add_right ..

namespace Timer

variable {t t' : Timer} {now delay : Nat}

/-- when the call of a timer has its effect, if it is made in time and takes `delay` -/
def effect (t : Timer) (delay : Nat) : Nat := if t.asked then t.wake else wakeTime t.wake delay

theorem wake_le_effect (t : Timer) (delay : Nat) : t.wake ≤ t.effect delay := by
  unfold effect
  split
  · exact Nat.le_refl _
  · exact le_wakeTime ..

theorem effect_of_ask (h : t.turn now delay = .ask t') (hnow : now ≤ t.wake) (later : Nat) :
    now ≤ t'.wake ∧ t'.effect later = t.effect delay := by
  obtain ⟨hbefore, -⟩ := asked_of_turn h
  unfold turn at h
  split at h
  next => cases h
  next hwake =>
    split at h
    next => cases h
    next =>
      cases h
      obtain rfl : now = t.wake := Nat.le_antisymm hnow (Nat.le_of_not_lt hwake)
      refine ⟨le_wakeTime .., ?_⟩
      rw [effect, effect, hbefore]
      rfl

theorem effect_of_go (h : t.turn now delay = .go) (hnow : now ≤ t.wake) (later : Nat) :
    t.effect later = now := by
  have hasked := go_of_turn h
  unfold turn at h
  split at h
  next => cases h
  next hwake =>
    rw [effect, if_pos hasked]
    exact Nat.le_antisymm (Nat.le_of_not_lt hwake) hnow

end Timer

/-! ## log streams -/

/-- when all is there of a log stream that is gone through yet: with a reader, up to the end, and
without one, up to the next line -/
def Log.Scanner.leaves (heard : Bool) (s : Log.Scanner) (times : List Nat) (line : Option String) :
    Nat :=
  if heard then s.closing times else if line.isSome then 0 else Log.lineTime s.reads times

namespace Log.Scanner

variable {s s' : Log.Scanner} {warnings : List Warning}

theorem leaves_of_advance (h : s.advance = (true, s', warnings)) (heard : Bool)
    (times : List Nat) :
    s.leaves heard times none = max (Log.lineTime s.reads times)
      (s'.leaves heard (times.drop (s.reads.length - s'.reads.length)) (some s'.line)) := by
  cases heard with
  | true => exact closing_of_advance h times
  | false => exact (Nat.max_zero _).symm

theorem leaves_of_no_advance (h : s.advance = (false, s', warnings)) (heard : Bool)
    (times : List Nat) : s.leaves heard times none = Log.lineTime s.reads times := by
  cases heard with
  | true => exact closing_of_no_advance h times
  | false => rfl

theorem lineTime_le_leaves (s : Log.Scanner) (heard : Bool) (times : List Nat) :
    Log.lineTime s.reads times ≤ s.leaves heard times none := by
  cases heard with
  | true => exact s.lineTime_le_closing times
  | false => exact Nat.le_refl _

end Log.Scanner

namespace LogOpening

/-- whether a log stream, if it is one, can be read to its end -/
def isReadable (options : Text.SanitizeOptions) : LogOpening → Bool
  | .stream s => (Log.Scanner.ofReads options s.reads).ending.failure.isNone
  | .failed _ | .panicked => true

/-- when all is there of a log stream that is gone through; `heard` is whether there is a reader -/
def leaves (options : Text.SanitizeOptions) (heard : Bool) : LogOpening → Nat
  | .stream s => (Log.Scanner.ofReads options s.reads).leaves heard s.times none
  | .failed _ | .panicked => 0

end LogOpening

/-- whether there is a reader, and which log streams are considered, by the time when they are
opened: such as can be read to their ends -/
structure Audience (options : Text.SanitizeOptions) where
  heard : Bool
  suits : Nat → LogOpening → Bool
  readable : ∀ now o, suits now o = true → o.isReadable options = true

/-! ## log tasks -/

/-- what is to come of a log task -/
structure Outlook where
  /-- when it is over -/
  leaves : Nat
  calls : List CallRecord
  failures : List RunError
  /-- whether its stream is one of those that are considered -/
  suits : Bool

namespace LogTask

def opens? (platform : Platform σ) (state : σ) (t : LogTask) : Option Nat :=
  match t.phase with
  | .opening timer => some (timer.effect (platform.delay .openLogs t.pod state))
  | _ => none

/-- when a log task is over that is not late -/
def leaves (setup : Setup σ) (heard : Bool) (state : σ) (t : LogTask) : Nat :=
  match t.phase with
  | .opening timer =>
    max (timer.effect (setup.platform.delay .openLogs t.pod state))
      ((setup.platform.openLogs t.pod t.container state).1.leaves setup.config.sanitize heard)
  | .forwarding scanner times line => scanner.leaves heard times line
  | .ended | .panicked => 0

variable {setup : Setup σ}

/-- whether the stream that a log task is to open is one of those that are considered -/
def isSuited (setup : Setup σ) (a : Audience setup.config.sanitize) (state : σ) (t : LogTask) :
    Bool :=
  match t.phase with
  | .opening timer =>
    a.suits (timer.effect (setup.platform.delay .openLogs t.pod state))
      (setup.platform.openLogs t.pod t.container state).1
  | _ => true

/-- what is to come of a log task if it is in time, as long as its stream is what it is in `state`
-/
def outlook (setup : Setup σ) (a : Audience setup.config.sanitize) (state : σ) (t : LogTask) :
    Outlook :=
  { leaves := t.leaves setup a.heard state
    calls := (t.opens? setup.platform state).toList.map (⟨·, t.pod, .opened t.container⟩)
    failures := (t.prospect setup.platform setup.config.sanitize state).failures
    suits := t.isSuited setup a state }

variable {a : Audience setup.config.sanitize} {state state' : σ} {t u : LogTask} {w : World σ}
  {result : Result σ}

theorem outlook_congr
    (hanswer : (setup.platform.openLogs t.pod t.container state).1 =
      (setup.platform.openLogs t.pod t.container state').1)
    (hdelay : setup.platform.delay .openLogs t.pod state =
      setup.platform.delay .openLogs t.pod state') :
    t.outlook setup a state = t.outlook setup a state' := by
  rw [outlook, outlook, prospect_congr hanswer, opens?, opens?, leaves, leaves, isSuited, isSuited,
    hanswer, hdelay]

theorem outlook_of_isOver (h : t.isOver = true) :
    t.outlook setup a state =
      { leaves := 0, calls := [], suits := true,
        failures := if t.isPanicked then [Run.panicError t] else [] } := by
  have hnone : t.opens? setup.platform state = none ∧ t.leaves setup a.heard state = 0 ∧
      t.isSuited setup a state = true := by
    unfold isOver at h
    unfold opens? leaves isSuited
    split at h <;> simp_all
  rw [outlook, prospect_of_isOver h, hnone.1, hnone.2.1, hnone.2.2]
  rfl

theorem Like.eq_of_begun (h : t.Like u) {timer : Timer} (ht : t.phase = .opening timer)
    (hu : u.phase = .opening timer) : t = u := by
  obtain ⟨id, pod, step, container, phase⟩ := t
  obtain ⟨id', pod', step', container', phase'⟩ := u
  obtain ⟨rfl, rfl, rfl, rfl, -⟩ := h
  cases ht
  cases hu
  rfl

theorem eq_of_begun {ts us : List LogTask} (h : List.Forall₂ Like ts us) {timer : Timer}
    (hts : ∀ t ∈ ts, t.phase = .opening timer) (hus : ∀ u ∈ us, u.phase = .opening timer) :
    ts = us := by
  induction h with
  | nil => rfl
  | cons htu _ ih =>
    obtain ⟨ht, hts⟩ := List.forall_mem_cons.1 hts
    obtain ⟨hu, hus⟩ := List.forall_mem_cons.1 hus
    rw [htu.eq_of_begun ht hu, ih hts hus]

/-- a log task that is not late, and whose stream, once opened, can be read to its end -/
structure InTime (setup : Setup σ) (a : Audience setup.config.sanitize) (w : World σ)
    (horizon : Nat) (t : LogTask) : Prop where
  punctual : ∀ timer, t.phase = .opening timer → w.now ≤ timer.wake
  bounded : t.leaves setup a.heard w.state ≤ horizon
  read : ∀ scanner times line, t.phase = .forwarding scanner times line →
    scanner.ending.failure = none

/-- a log task stays in time as long as it has the same to do -/
theorem InTime.congr {w' : World σ} {horizon horizon' : Nat} (h : t.InTime setup a w horizon)
    (hsame : t.outlook setup a w'.state = t.outlook setup a w.state) (hle : horizon ≤ horizon')
    (hnow : ∀ timer, t.phase = .opening timer → w'.now ≤ timer.wake) :
    t.InTime setup a w' horizon' := by
  refine ⟨hnow, ?_, h.read⟩
  have hleaves : t.leaves setup a.heard w'.state = t.leaves setup a.heard w.state :=
    congrArg Outlook.leaves hsame
  rw [hleaves]
  exact Nat.le_trans h.bounded hle

theorem inTime_of_opening {horizon : Nat} {timer : Timer} (hp : t.phase = .opening timer)
    (hnow : w.now ≤ timer.wake) (hbound : t.leaves setup a.heard w.state ≤ horizon) :
    t.InTime setup a w horizon := by
  refine ⟨fun later hlater => ?_, hbound, fun scanner times line hreading => ?_⟩
  · cases hp.symm.trans hlater
    exact hnow
  · cases hp.symm.trans hreading

/-- What a log task does in a step, in time: what it has called, `made`, it has not to call any
more, and so for what it has failed with. -/
structure Advances (setup : Setup σ) (a : Audience setup.config.sanitize) (w : World σ)
    (t u : LogTask) (made : List CallRecord) (failed : List RunError) : Prop where
  calls : (t.outlook setup a w.state).calls = made ++ (u.outlook setup a w.state).calls
  failures : (t.outlook setup a w.state).failures = failed ++ (u.outlook setup a w.state).failures
  suits : t.isSuited setup a w.state = u.isSuited setup a w.state
  leaves : u.leaves setup a.heard w.state ≤ t.leaves setup a.heard w.state
  last : t.leaves setup a.heard w.state = u.leaves setup a.heard w.state ∨
    t.leaves setup a.heard w.state ≤ w.now
  punctual : ∀ timer, u.phase = .opening timer → w.now ≤ timer.wake
  read : ∀ scanner times line, u.phase = .forwarding scanner times line →
    scanner.ending.failure = none
  opened : ∀ c ∈ made, c.event.isOpened = true

theorem Advances.inTime {made : List CallRecord} {failed : List RunError} {horizon : Nat}
    (ha : t.Advances setup a w u made failed) (h : t.InTime setup a w horizon) :
    u.InTime setup a w horizon :=
  ⟨ha.punctual, Nat.le_trans ha.leaves h.bounded, ha.read⟩

theorem outlook_of_opening (setup : Setup σ) (a : Audience setup.config.sanitize) (state : σ)
    {timer : Timer} (hp : t.phase = .opening timer) :
    let time := timer.effect (setup.platform.delay .openLogs t.pod state)
    let opening := (setup.platform.openLogs t.pod t.container state).1
    (t.outlook setup a state).calls = [⟨time, t.pod, .opened t.container⟩] ∧
      t.leaves setup a.heard state = max time (opening.leaves setup.config.sanitize a.heard) ∧
      t.isSuited setup a state = a.suits time opening := by
  refine ⟨?_, by rw [leaves, hp], by rw [isSuited, hp]⟩
  show (t.opens? setup.platform state).toList.map _ = _
  rw [opens?, hp]
  rfl

/-- what a log task is to call is the opening of its stream -/
theorem isOpened_of_mem_calls {c : CallRecord} (h : c ∈ (t.outlook setup a state).calls) :
    c.event.isOpened = true := by
  obtain ⟨time, -, rfl⟩ := List.mem_map.1 h
  rfl

theorem outlook_of_not_opening (setup : Setup σ) (a : Audience setup.config.sanitize) (state : σ)
    (h : t.isOpening = false) :
    (t.outlook setup a state).calls = [] ∧ t.isSuited setup a state = true := by
  have hopens : t.opens? setup.platform state = none ∧ t.isSuited setup a state = true := by
    unfold isOpening at h
    unfold opens? isSuited
    split at h <;> simp_all
  refine ⟨?_, hopens.2⟩
  show (t.opens? setup.platform state).toList.map _ = _
  rw [hopens.1]
  rfl

/-- with its stream open, a log task has nothing to call any more -/
theorem advances_of_not_opening {failed : List RunError} (ht : t.isOpening = false)
    (hu : u.isOpening = false)
    (hfailures : (t.outlook setup a w.state).failures =
      failed ++ (u.outlook setup a w.state).failures)
    (hleaves : t.leaves setup a.heard w.state = u.leaves setup a.heard w.state ∨
      u.leaves setup a.heard w.state ≤ t.leaves setup a.heard w.state ∧
        t.leaves setup a.heard w.state ≤ w.now)
    (hread : ∀ scanner times line, u.phase = .forwarding scanner times line →
      scanner.ending.failure = none) :
    t.Advances setup a w u [] failed := by
  obtain ⟨hnone, hsuited⟩ := outlook_of_not_opening setup a w.state ht
  obtain ⟨hnone', hsuited'⟩ := outlook_of_not_opening setup a w.state hu
  refine ⟨hnone.trans hnone'.symm, hfailures, hsuited.trans hsuited'.symm,
    hleaves.elim (fun hsame => Nat.le_of_eq hsame.symm) (·.1), hleaves.imp_right (·.2),
    fun timer hp => ?_, hread, by simp⟩
  rw [isOpening, hp] at hu
  cases hu

/-- by opening its stream, a log task has called what it was to call -/
theorem advances_of_opening {failed : List RunError} {timer : Timer} (hp : t.phase = .opening timer)
    (heffect : timer.effect (setup.platform.delay .openLogs t.pod w.state) = w.now)
    (hu : u.isOpening = false) (hsuits : t.isSuited setup a w.state = true)
    (hfailures : (t.outlook setup a w.state).failures =
      failed ++ (u.outlook setup a w.state).failures)
    (hleaves : u.leaves setup a.heard w.state =
      (setup.platform.openLogs t.pod t.container w.state).1.leaves setup.config.sanitize a.heard)
    (hread : ∀ scanner times line, u.phase = .forwarding scanner times line →
      a.suits w.now (setup.platform.openLogs t.pod t.container w.state).1 = true →
        scanner.ending.failure = none) :
    t.Advances setup a w u [⟨w.now, t.pod, .opened t.container⟩] failed := by
  obtain ⟨hcall, hleft, hsuited⟩ := outlook_of_opening setup a w.state hp
  obtain ⟨hnone, hsuited'⟩ := outlook_of_not_opening setup a w.state hu
  rw [heffect] at hcall hleft hsuited
  refine ⟨?_, hfailures, hsuits.trans hsuited'.symm, ?_, ?_, fun timer hp => ?_,
    fun scanner times line hp => hread scanner times line hp (hsuited.symm.trans hsuits),
    by simp [CallEvent.isOpened]⟩
  · rw [hcall, hnone]
    rfl
  · rw [hleaves, hleft]
    exact Nat.le_max_right ..
  · rw [hleaves, hleft]
    omega
  · rw [isOpening, hp] at hu
    cases hu

/-- **What a log task does in a step that it makes in time.** -/
theorem outlook_of_transition
    (ht : Transition setup.platform setup.config.sanitize t w result) {horizon : Nat}
    (h : t.InTime setup a w horizon) (hopen : w.channel.isOpen = a.heard)
    (hsuits : result.task.isOpening = t.isOpening ∨ t.isSuited setup a w.state = true) :
    ∃ made, result.world.calls = made.reverse ++ w.calls ∧
      t.Advances setup a w result.task made result.failure.toList := by
  have hfailures : (t.outlook setup a w.state).failures =
      result.failure.toList ++ (result.task.outlook setup a w.state).failures :=
    failures_of_transition ht (.inr h.read) rfl
  have hbegun {timer : Timer} (hp : t.phase = .opening timer)
      (hopening : result.task.isOpening = false) : t.isSuited setup a w.state = true := by
    refine hsuits.resolve_left fun hsame => ?_
    rw [hopening, isOpening, hp] at hsame
    cases hsame
  have heffect {timer : Timer} (hp : t.phase = .opening timer) {delay : Nat}
      (hgo : timer.turn w.now delay = .go) (later : Nat) : timer.effect later = w.now :=
    Timer.effect_of_go hgo (h.punctual timer hp) later
  have hreading {scanner : Log.Scanner} {times : List Nat} {line : Option String}
      (hp : t.phase = .forwarding scanner times line) : t.isOpening = false := by
    rw [isOpening, hp]
  cases ht with
  | @asked timer timer' hp ht =>
    obtain ⟨hlater, hsame⟩ := Timer.effect_of_ask ht (h.punctual timer hp)
      (setup.platform.delay .openLogs t.pod w.state)
    obtain ⟨hcalls, hleaves, hsuited⟩ := outlook_of_opening setup a w.state hp
    rw [← hsame] at hcalls hleaves hsuited
    exact ⟨[], rfl, hcalls, hfailures, hsuited, Nat.le_of_eq hleaves.symm, .inl hleaves,
      fun _ hphase => (by cases hphase; exact hlater), fun _ _ _ hphase => (by cases hphase),
      by simp⟩
  | openPanicked hp hgo ha | openRefused hp hgo ha =>
    exact ⟨[⟨w.now, t.pod, .opened t.container⟩], rfl,
      advances_of_opening hp (heffect hp hgo _) rfl (hbegun hp rfl) hfailures (by rw [ha]; rfl)
        fun _ _ _ hphase => by cases hphase⟩
  | opened hp hgo ha =>
    refine ⟨[⟨w.now, t.pod, .opened t.container⟩], rfl,
      advances_of_opening hp (heffect hp hgo _) rfl (hbegun hp rfl) hfailures (by rw [ha]; rfl)
        fun scanner times line hphase hsuits => ?_⟩
    cases hphase
    rw [ha] at hsuits
    exact Option.isNone_iff_eq_none.1 (a.readable _ _ hsuits)
  | @read scanner scanner' times warnings hp hn ha =>
    refine ⟨[], rfl, advances_of_not_opening (hreading hp) rfl hfailures ?_ fun _ _ _ hphase => ?_⟩
    · have hleaves := Log.Scanner.leaves_of_advance ha a.heard times
      simp only [leaves, goTo, hp, hleaves]
      omega
    · cases hphase
      rw [← Log.Scanner.ending_of_advance ha]
      exact h.read scanner times none hp
  | @closed scanner scanner' times warnings hp hn ha =>
    obtain ⟨htask, hcalls, -⟩ := close_task t scanner' (w.warn warnings)
    refine ⟨[], hcalls, advances_of_not_opening (hreading hp) (by rw [htask]; rfl) hfailures
      (.inr ⟨?_, ?_⟩) fun _ _ _ hphase => ?_⟩
    · rw [htask]
      exact Nat.zero_le _
    · rw [leaves, hp]
      exact Nat.le_trans (Nat.le_of_eq (Log.Scanner.leaves_of_no_advance ha a.heard times)) hn
    · rw [htask] at hphase
      cases hphase
  | @stopped scanner times line hp hclosed =>
    refine ⟨[], rfl, advances_of_not_opening (hreading hp) rfl hfailures (.inl ?_)
      fun _ _ _ hphase => by cases hphase⟩
    simp only [leaves, goTo, hp, Log.Scanner.leaves, ← hopen, hclosed, Option.isSome_some]
    rfl
  | @sent scanner times line hp hheard =>
    refine ⟨[], rfl, advances_of_not_opening (hreading hp) rfl hfailures (.inl ?_)
      fun _ _ _ hphase => ?_⟩
    · simp only [leaves, goTo, hp, Log.Scanner.leaves, ← hopen, hheard, if_true]
    · cases hphase
      exact h.read scanner times (some line) hp

/-- a log task whose step opens a stream that is considered was to open such a one -/
theorem Transition.suited_of_openings {e : RunEvent σ}
    (ht : Transition setup.platform setup.config.sanitize t e.seen result)
    (hl : e.left = result.world) {horizon : Nat} (h : t.InTime setup a e.seen horizon)
    (hsuits : ∀ o ∈ e.openings setup, a.suits e.seen.now o.2 = true) :
    result.task.isOpening = t.isOpening ∨ t.isSuited setup a e.seen.state = true := by
  have hopens {timer : Timer} (hp : t.phase = .opening timer)
      (hgo : timer.turn e.seen.now (setup.platform.delay .openLogs t.pod e.seen.state) = .go)
      (hcalls : result.world.calls = ⟨e.seen.now, t.pod, .opened t.container⟩ :: e.seen.calls) :
      t.isSuited setup a e.seen.state = true := by
    rw [RunEvent.openings_of_opened (by rw [hl]; exact hcalls)] at hsuits
    rw [(outlook_of_opening setup a e.seen.state hp).2.2,
      Timer.effect_of_go hgo (h.punctual timer hp)]
    exact hsuits _ List.mem_cons_self
  cases ht with
  | openPanicked hp hgo | openRefused hp hgo | opened hp hgo => exact .inr (hopens hp hgo rfl)
  | asked hp | read hp | stopped hp | sent hp =>
    left
    simp only [isOpening, goTo, hp]
  | @closed scanner scanner' times warnings hp =>
    left
    rw [(close_task t scanner' (e.seen.warn warnings)).1]
    simp only [isOpening, hp]

theorem le_leaves_of_wake {time : Nat} (h : t.wake? = some time) (heard : Bool) (state : σ) :
    time ≤ t.leaves setup heard state := by
  unfold wake? at h
  split at h
  next timer hp =>
    cases h
    rw [leaves, hp]
    exact Nat.le_trans (timer.wake_le_effect _) (Nat.le_max_left ..)
  next scanner times hp =>
    cases h
    rw [leaves, hp]
    exact scanner.lineTime_le_leaves heard times
  next => cases h

end LogTask

/-- where log tasks are to be joined and no one can make a step, one waits for a time -/
theorem Run.exists_waiting {w : World σ} {tasks : List LogTask} (hj : joinable? tasks = none)
    (hsome : tasks ≠ []) (hsend : w.channel.canSend = true) (hrests : ∀ t ∈ tasks, t.Rests w) :
    ∃ t ∈ tasks, ∃ time, t.wake? = some time ∧ w.now < time := by
  obtain ⟨t, ht⟩ := List.exists_mem_of_ne_nil _ hsome
  have hover := Crew.joinable?_eq_none hj ht
  have hwait := hrests t ht
  refine ⟨t, ht, ?_⟩
  -- a line that it has read could be sent
  unfold LogTask.Rests at hwait
  unfold LogTask.isOver at hover
  unfold LogTask.wake?
  split at hwait <;> simp_all

end StepRunner
