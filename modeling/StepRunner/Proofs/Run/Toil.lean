import Mathlib.Algebra.Order.BigOperators.Group.List
import Mathlib.Algebra.Order.Group.Nat
import StepRunner.Proofs.Run.Fluent
import StepRunner.Proofs.Run.Milestones

/-!
# What is left to do before the next milestone

In a fluent schedule a run is in time: it is always at a milestone of its step.  As long as it is
not over, someone can go on, and what is left to do before the next milestone gets less.

* `Run.toil`, `Crew.toil`    what is left to do before the next milestone
* `Crew.AtMilestone`         a run on its own that is at a milestone of its step
* `AtMilestone.act`, `AtMilestone.tick`
                             each move leaves it there with less to do, or takes it to the next one
* `AtMilestone.play`         it is at one under every fluent schedule
* `AtMilestone.exists_end`   it can always be brought to its end
-/

namespace StepRunner

variable {σ : Type}

/-! ## what is left to do -/

/-- the moves of the clock from `now` to a time that is waited for -/
def moment (now time : Nat) : Nat := if now < time then 1 else 0

section

variable {now later time : Nat}

theorem moment_le_one (now time : Nat) : moment now time ≤ 1 := by
  unfold moment
  split <;> omega

theorem moment_of_lt (h : now < time) : moment now time = 1 := if_pos h

theorem moment_of_le (h : time ≤ now) : moment now time = 0 := if_neg (Nat.not_lt.2 h)

theorem moment_le (h : now ≤ later) : moment later time ≤ moment now time := by
  unfold moment
  split <;> split <;> omega

end

namespace Timer

variable {t t' : Timer} {now later delay : Nat}

/-- a call that is to be made takes two moves more than one that is under way -/
def toil (t : Timer) (now : Nat) : Nat := (if t.asked then 0 else 2) + moment now t.wake

theorem toil_le (t : Timer) (h : now ≤ later) : t.toil later ≤ t.toil now :=
  Nat.add_le_add_left (moment_le h) _

theorem toil_of_wake (h : now < t.wake) (hlater : t.wake ≤ later) : t.toil later < t.toil now := by
  rw [toil, toil, moment_of_lt h, moment_of_le hlater]
  omega

theorem toil_of_ask (h : t.turn now delay = .ask t') : t'.toil now < t.toil now := by
  obtain ⟨hbefore, hafter⟩ := asked_of_turn h
  have hle := moment_le_one now t'.wake
  simp only [toil, hbefore, hafter, Bool.false_eq_true, if_true, if_false]
  omega

end Timer

namespace LogTask

variable {setup : Setup σ} {t : LogTask} {w w' : World σ} {result : Result σ}

/-- what a log task has left to do: a line takes a move to be waited for, one to be read, one to be
sent and one to be taken by the reader -/
def toil (setup : Setup σ) (w : World σ) (t : LogTask) : Nat :=
  match t.phase with
  | .opening timer =>
    timer.toil w.now + 3 + 4 * ((setup.platform.openLogs t.pod t.container w.state).1.lines
      setup.config.sanitize).length
  | .forwarding scanner times none =>
    4 * scanner.lines.length + 1 + moment w.now (Log.lineTime scanner.reads times)
  | .forwarding scanner _ (some _) => 4 * scanner.lines.length + 4
  | .ended | .panicked => 0

theorem toil_congr (hstate : w'.state = w.state) (hnow : w'.now = w.now) :
    t.toil setup w' = t.toil setup w := by
  rw [toil, toil, hstate, hnow]

theorem toil_le (hstate : w'.state = w.state) (hnow : w.now ≤ w'.now) :
    t.toil setup w' ≤ t.toil setup w := by
  unfold toil
  rw [hstate]
  split
  next timer _ =>
    have hle := timer.toil_le hnow
    omega
  next => exact Nat.add_le_add_left (moment_le hnow) _
  next => exact Nat.le_refl _
  next => exact Nat.le_refl _
  next => exact Nat.le_refl _

theorem toil_of_wake (hstate : w'.state = w.state) {time : Nat} (hwake : t.wake? = some time)
    (hnow : w.now < time) (hlater : time ≤ w'.now) : t.toil setup w' < t.toil setup w := by
  unfold wake? at hwake
  split at hwake
  next timer hp =>
    cases hwake
    have hlt := Timer.toil_of_wake hnow hlater
    simp only [toil, hp, hstate]
    omega
  next scanner times hp =>
    cases hwake
    simp only [toil, hp, moment_of_lt hnow, moment_of_le hlater]
    omega
  next => cases hwake

/-- with each step there is less left to do, for the log task or, if it sends a line, for it and the
reader -/
theorem toil_of_transition
    (ht : Transition setup.platform setup.config.sanitize t w result) :
    result.task.toil setup result.world + result.world.channel.underWay <
      t.toil setup w + w.channel.underWay := by
  cases ht with
  | asked hp ht =>
    have hlt := Timer.toil_of_ask ht
    simp only [toil, goTo, hp]
    omega
  | openPanicked hp ht ha | openRefused hp ht ha =>
    simp only [toil, goTo, fail, hp, World.after, World.warn]
    omega
  | @opened timer s state hp ht ha =>
    have hle := moment_le_one w.now
      (Log.lineTime (Log.Scanner.ofReads setup.config.sanitize s.reads).reads s.times)
    simp only [toil, goTo, hp, ha, World.after, LogOpening.lines]
    omega
  | read hp hn ha =>
    simp only [toil, goTo, hp, World.warn, Log.Scanner.lines_of_advance ha, List.length_cons]
    omega
  | @closed scanner scanner' times warnings hp hn ha =>
    obtain ⟨htask, -, hchannel⟩ := close_task t scanner' (w.warn warnings)
    rw [htask, hchannel]
    simp only [toil, hp, World.warn]
    omega
  | stopped hp =>
    simp only [toil, goTo, hp]
    omega
  | @sent scanner times line hp ho =>
    have hle := moment_le_one w.now (Log.lineTime scanner.reads times)
    simp only [toil, goTo, hp, World.send, Channel.send, if_pos ho]
    omega

end LogTask

namespace Run

variable {setup : Setup σ} {step : StepDefinition} {r r' : Run} {w w' : World σ}

/-- what a run and its log tasks have left to do before the next milestone; a log task that is over
is to be joined -/
def toil (setup : Setup σ) (w : World σ) (r : Run) : Nat :=
  r.timer.toil w.now + (r.tasks.map fun t => t.toil setup w + 1).sum

theorem toil_congr (hstate : w'.state = w.state) (hnow : w'.now = w.now) :
    r.toil setup w' = r.toil setup w := by
  have htasks (t : LogTask) : t.toil setup w' = t.toil setup w := LogTask.toil_congr hstate hnow
  simp only [toil, hnow, htasks]

theorem toil_of_wake (hstate : w'.state = w.state) {time : Nat}
    (hwake : time ∈ r.wake?.toList ++ r.tasks.filterMap (·.wake?)) (hnow : w.now < time)
    (hlater : time ≤ w'.now) : r.toil setup w' < r.toil setup w := by
  have hle : w.now ≤ w'.now := by omega
  have htimer := r.timer.toil_le hle
  have htasks (t : LogTask) (_ : t ∈ r.tasks) : t.toil setup w' + 1 ≤ t.toil setup w + 1 :=
    Nat.succ_le_succ (LogTask.toil_le hstate hle)
  rcases List.mem_append.1 hwake with hwake | hwake
  · have hown : r.timer.wake = time := by
      rw [Option.mem_toList] at hwake
      unfold wake? at hwake
      split at hwake <;> simp_all
    have hlt := Timer.toil_of_wake (hown ▸ hnow) (hown ▸ hlater)
    have hsum := List.sum_le_sum htasks
    unfold toil
    omega
  · obtain ⟨t, ht, hwake⟩ := List.mem_filterMap.1 hwake
    have hlt := List.sum_lt_sum _ _ htasks
      ⟨t, ht, Nat.succ_lt_succ (LogTask.toil_of_wake hstate hwake hnow hlater)⟩
    unfold toil
    omega

/-- a step that a run makes while there is something to wait for leaves less to do -/
theorem toil_of_act (hact : r.act setup w = some (r', w')) (hunfired : w.cancelled = false)
    (hdue : ¬ r.Due w) :
    r'.toil setup w' + w'.channel.underWay < r.toil setup w + w.channel.underWay := by
  cases leads_of_act_self List.Perm hact hunfired with
  | asked hcall ht ha hl =>
    have hlt := Timer.toil_of_ask ht
    dsimp only at ha hl hlt
    subst ha hl
    simp only [toil]
    omega
  | joined hp hj ha hl =>
    obtain ⟨warnings, hl⟩ := hl
    dsimp only at hj ha hl
    subst ha hl
    obtain ⟨front, back, hsplit, rfl⟩ := exists_split_of_joinable? hj
    have hsame (t : LogTask) : t.toil setup (w.warn warnings) = t.toil setup w :=
      LogTask.toil_congr rfl rfl
    simp only [toil, hsplit, hsame, List.map_append, List.map_cons, List.sum_append,
      List.sum_cons]
    show r.timer.toil w.now + _ + w.channel.underWay < _
    omega
  | step hdue' => exact absurd hdue' hdue

theorem toil_of_actTask (hsteady : setup.platform.Steady) (hgrown : r.Grown setup step) {id : Nat}
    (hmade : r.actTask setup id w = some (r', w')) :
    r'.toil setup w' + w'.channel.underWay < r.toil setup w + w.channel.underWay := by
  obtain ⟨t, result, hfind, ht, rfl, rfl⟩ := transition_of_actTask hmade
  obtain ⟨front, back, hsplit, hput⟩ := hgrown.exists_split (List.mem_of_find?_eq_some hfind)
  obtain ⟨hid, -, -, -⟩ := ht.outputs (e := ⟨none, r, w, r, result.world⟩) rfl
  have hlt := LogTask.toil_of_transition ht
  have hsame (u : LogTask) : u.toil setup result.world = u.toil setup w :=
    LogTask.toil_congr (ht.state_eq hsteady) ht.agrees.now
  rw [hput result.task hid]
  simp only [hsame] at hlt
  simp only [toil, hsplit, hsame, ht.agrees.now, List.map_append, List.map_cons, List.sum_append,
    List.sum_cons]
  omega

end Run

/-! ## a run on its own -/

namespace Crew

variable {setup : Setup σ} {a : Audience setup.config.sanitize} {step : StepDefinition}
  {world : World σ} {n : Nat} {c c' : Crew σ} {r : Run} {actor : Actor} {m : Move}

/-- what is left to do before the next milestone, by the reader too -/
def toil (setup : Setup σ) (c : Crew σ) : Nat :=
  (c.runs.map (·.toil setup c.world)).sum + c.world.channel.underWay

theorem toil_of_sole (setup : Setup σ) (hr : c.runs = [r]) :
    c.toil setup = r.toil setup c.world + c.world.channel.underWay := by
  rw [toil, hr]
  rfl

/-- A run on its own that is at a milestone of its step, from its start in `world`.  The token is
not fired, and no one has to wait for the reader for ever. -/
structure AtMilestone (setup : Setup σ) (a : Audience setup.config.sanitize)
    (step : StepDefinition) (world : World σ) (n : Nat) (c : Crew σ) (r : Run) : Prop where
  runs : c.runs = [r]
  policy : c.policy = none
  unarmed : c.Unarmed
  heard : c.world.channel.isOpen = a.heard
  serves : c.world.channel.Serves
  grown : r.Grown setup step
  met : Milestone.Met setup a r c.world (milestones setup a step world n)

theorem AtMilestone.moved (h : c.AtMilestone setup a step world n r) (m : Move) {k : Nat} {q : Run}
    (hruns : (c.move setup m).runs = [q]) (hgrown : q.Grown setup step)
    (hmet : Milestone.Met setup a q (c.move setup m).world (milestones setup a step world k)) :
    (c.move setup m).AtMilestone setup a step world k q :=
  ⟨hruns, (policy_move m).trans h.policy, h.unarmed.move m, (grows_move setup c m).1.trans h.heard,
    serves_move h.serves m, hgrown, hmet⟩

/-- a log stream that is opened is one of those that are considered, or all of them are -/
def Suits (setup : Setup σ) (a : Audience setup.config.sanitize) (step : StepDefinition)
    (world : World σ) (n : Nat) (c : Crew σ) (m : Move) : Prop :=
  (∀ e, c.event? setup 0 m = some e → ∀ o ∈ e.openings setup, a.suits e.seen.now o.2 = true) ∨
  (milestones setup a step world n).suits = true

/-- **Each act takes a run to the next milestone, or leaves less to do before it.** -/
theorem AtMilestone.act (h : c.AtMilestone setup a step world n r) (hsteady : setup.platform.Steady)
    (hunfired : world.cancelled = false) (hact : c.act setup actor = some c')
    (hsuits : c.Suits setup a step world n (.act actor)) :
    (∃ r', c'.AtMilestone setup a step world (n + 1) r') ∨
      ∃ r', c'.AtMilestone setup a step world n r' ∧ c'.toil setup < c.toil setup := by
  have hmove : c.move setup (.act actor) = c' := by rw [move, hact, Option.getD_some]
  have hnext {n' : Nat} {r' : Run} := h.moved (.act actor) (k := n') (q := r')
  rw [hmove] at hnext
  have htoil := toil_of_sole setup h.runs
  have hsole (s : Run) : c.runs.set 0 s = [s] := by
    rw [h.runs]
    rfl
  cases acts_of_act hact with
  | @run k s r' w' hs hown =>
    obtain ⟨rfl, rfl⟩ := eq_of_sole h.runs hs
    have hworld : settle c.policy r' w' = w' := by
      rw [h.policy]
      rfl
    rw [hworld] at hnext ⊢
    have hv : RunEvent.Valid setup ⟨none, s, c.world, r', w'⟩ := hown
    obtain ⟨hgo, hstay⟩ := h.met.run (clear_milestones setup a step hunfired n) hsteady h.grown
      hown h.unarmed.cancelled
    by_cases hdue : s.Due c.world
    · exact .inl ⟨r', hnext (hsole r') (h.grown.event hv) (hgo hdue)⟩
    · refine .inr ⟨r', hnext (hsole r') (h.grown.event hv) (hstay hdue), ?_⟩
      rw [htoil, toil_of_sole setup (hsole r')]
      exact Run.toil_of_act hown h.unarmed.cancelled hdue
  | @logTask k id s r' w' hs hown =>
    obtain ⟨rfl, rfl⟩ := eq_of_sole h.runs hs
    have hv : RunEvent.Valid setup ⟨some id, s, c.world, r', w'⟩ := hown
    have hmet := h.met.task hsteady h.grown h.heard hown
      (hsuits.imp_left fun hsuits => hsuits _ (move_logTask hs hown).1)
    refine .inr ⟨r', hnext (hsole r') (h.grown.event hv) hmet, ?_⟩
    rw [htoil, toil_of_sole setup (hsole r')]
    exact Run.toil_of_actTask hsteady h.grown hown
  | @reader channel hreceive =>
    refine .inr ⟨r, hnext h.runs h.grown (h.met.frame rfl rfl rfl), ?_⟩
    have hsame : r.toil setup { c.world with channel } = r.toil setup c.world :=
      Run.toil_congr rfl rfl
    rw [htoil, toil_of_sole setup (c := { c with world := { c.world with channel } }) h.runs]
    dsimp only
    rw [hsame]
    exact Nat.add_lt_add_left (Channel.underWay_of_receive hreceive) _
  | canceller hat =>
    -- no one is going to fire the token
    rw [h.unarmed.cancelAt] at hat
    cases hat

theorem AtMilestone.rests (h : c.AtMilestone setup a step world n r)
    (hidle : c.isIdle setup = true) : r.Rests c.world ∧ ∀ t ∈ r.tasks, t.Rests c.world := by
  have hr := getElem?_of_sole h.runs
  have hnone {a : Actor} (ha : a ∈ c.staff) : c.act setup a = none :=
    Option.isNone_iff_eq_none.1 (List.all_eq_true.1 hidle a ha)
  refine ⟨act_run_eq_none_iff.1 (hnone (mem_staff_iff.2 (.inr ⟨0, r, hr, .inl rfl⟩))) r hr,
    fun t ht => ?_⟩
  obtain ⟨u, hfind⟩ : ∃ u, r.tasks.find? (·.id = t.id) = some u :=
    Option.isSome_iff_exists.1 (List.find?_isSome.2 ⟨t, ht, by simp⟩)
  obtain rfl := h.grown.eq_of_id ht (List.mem_of_find?_eq_some hfind)
    (by simpa using List.find?_some hfind)
  exact act_logTask_eq_none_iff.1
    (hnone (mem_staff_iff.2 (.inr ⟨0, r, hr, .inr ⟨u, ht, rfl⟩⟩))) r hr u hfind

theorem AtMilestone.wakes_eq (h : c.AtMilestone setup a step world n r) :
    c.wakes = r.wake?.toList ++ r.tasks.filterMap (·.wake?) := by
  rw [wakes, h.unarmed.cancelAt, h.runs]
  exact List.append_nil _

theorem AtMilestone.tick (h : c.AtMilestone setup a step world n r)
    (hidle : c.isIdle setup = true) (hsend : c.world.channel.canSend = true)
    (htick : c.tick = some c') :
    c'.AtMilestone setup a step world n r ∧ c'.toil setup < c.toil setup := by
  have hmove : c.move setup .tick = c' := by rw [move, htick, Option.getD_some]
  have hnext' := h.moved .tick (k := n) (q := r)
  rw [hmove] at hnext'
  obtain ⟨now, hmem, hlater, hnext, rfl⟩ := tick_eq_some_iff.1 htick
  rw [h.wakes_eq] at hmem hnext
  obtain ⟨hrests, htasks⟩ := h.rests hidle
  refine ⟨hnext' h.runs h.grown
    (h.met.tick h.grown h.unarmed.cancelled hsend hrests htasks hmem hlater hnext), ?_⟩
  have hless : r.toil setup { c.world with now } < r.toil setup c.world :=
    Run.toil_of_wake rfl hmem hlater (Nat.le_refl now)
  rw [toil_of_sole setup h.runs,
    toil_of_sole setup (c := { c with world := { c.world with now } }) h.runs]
  exact Nat.add_lt_add_right hless _

theorem AtMilestone.pass (h : c.AtMilestone setup a step world n r) (current : Option Actor)
    (waiting : List Actor) :
    ({ c with current, waiting } : Crew σ).AtMilestone setup a step world n r :=
  h.moved (.pass current waiting) h.runs h.grown h.met

/-- **Under every fluent schedule a run is at a milestone of its step.** -/
theorem AtMilestone.play (h : c.AtMilestone setup a step world n r)
    (hsteady : setup.platform.Steady) (hunfired : world.cancelled = false) {moves : List Move}
    (hfluent : c.isFluent setup moves = true)
    (hsuits : (∀ e ∈ c.events setup 0 moves, ∀ o ∈ e.openings setup,
      a.suits e.seen.now o.2 = true) ∨
      ∀ n, (milestones setup a step world n).suits = true) :
    ∃ n' r', (c.play setup moves).AtMilestone setup a step world n' r' := by
  induction moves generalizing c r n with
  | nil => exact ⟨n, r, h⟩
  | cons m moves ih =>
    obtain ⟨htick, hfluent⟩ := isFluent_cons_iff.1 hfluent
    have hfirst : c.Suits setup a step world n m :=
      hsuits.imp (fun hsuits e he => hsuits e (List.mem_append_left _ (by simp [he]))) (· n)
    have hrest := hsuits.imp_left fun hsuits e he => hsuits e (List.mem_append_right _ he)
    suffices hmove : ∃ n' r', (c.move setup m).AtMilestone setup a step world n' r' by
      obtain ⟨n', r', hmove⟩ := hmove
      exact ih hmove hfluent hrest
    cases m with
    | tick =>
      cases hnext : c.tick with
      | none =>
        rw [move, hnext]
        exact ⟨n, r, h⟩
      | some next =>
        obtain ⟨hidle, hsend⟩ := htick rfl
        rw [move, hnext]
        exact ⟨n, r, (h.tick hidle hsend hnext).1⟩
    | pass current waiting => exact ⟨n, r, h.pass current waiting⟩
    | act actor =>
      cases hnext : c.act setup actor with
      | none =>
        rw [move, hnext]
        exact ⟨n, r, h⟩
      | some next =>
        rw [move, hnext]
        obtain ⟨r', h'⟩ | ⟨r', h', -⟩ := h.act hsteady hunfired hnext hfirst
        · exact ⟨n + 1, r', h'⟩
        · exact ⟨n, r', h'⟩

/-- as long as a run is not over, there is someone who waits for a time when no one can make a step
-/
theorem AtMilestone.isSome_tick (h : c.AtMilestone setup a step world n r)
    (hover : r.isOver = false) (hidle : c.isIdle setup = true)
    (hsend : c.world.channel.canSend = true) : c.tick.isSome = true := by
  obtain ⟨hrests, htasks⟩ := h.rests hidle
  have hwake {time : Nat} (hmem : time ∈ r.wake?.toList ++ r.tasks.filterMap (·.wake?))
      (hnow : c.world.now < time) : c.tick.isSome = true :=
    Crew.isSome_tick (h.wakes_eq ▸ hmem) hnow
  have hown (hw : r.wake? = some r.timer.wake) (hnow : c.world.now < r.timer.wake) :
      c.tick.isSome = true := hwake (List.mem_append_left _ (by simp [hw])) hnow
  unfold Run.Rests at hrests
  cases hp : r.phase with
  | start => simp [hp] at hrests
  | ended | panicked => simp [Run.isOver, hp] at hover
  | announcing => simp [hp, hsend] at hrests
  | creating | deleting =>
    rw [hp] at hrests
    exact hown (by simp only [Run.wake?, hp]) hrests
  | streaming | finishing =>
    rw [hp] at hrests
    exact hown (by simp only [Run.wake?, hp]) hrests.2
  | joining =>
    rw [hp] at hrests
    obtain ⟨-, hj, hsome⟩ := hrests
    obtain ⟨t, ht, time, htime, hwait⟩ := Run.exists_waiting hj hsome hsend htasks
    exact hwake (List.mem_append_right _ (List.mem_filterMap.2 ⟨t, ht, htime⟩)) hwait

/-! ## the fair choice -/

/-- what is left to do before the next milestone, with a turn that can be given up -/
def strain (setup : Setup σ) (c : Crew σ) : Nat := 2 * c.toil setup + c.current.isSome.toNat

theorem AtMilestone.turn (h : c.AtMilestone setup a step world n r)
    (hsteady : setup.platform.Steady) (hunfired : world.cancelled = false)
    (hsuits : (milestones setup a step world n).suits = true) (hc : c.Complete)
    (hreader : c.HasTurn .reader) (ht : Turns setup c c') :
    (∃ r', c'.AtMilestone setup a step world (n + 1) r') ∨
      ∃ r', c'.AtMilestone setup a step world n r' ∧ c'.strain setup < c.strain setup := by
  cases ht with
  | goesOn hcurrent hact =>
    obtain hnext | ⟨r', h', hless⟩ := h.act hsteady hunfired hact (.inr hsuits)
    · exact .inl hnext
    · refine .inr ⟨r', h', ?_⟩
      rw [strain, strain, (hc.act hact).2]
      omega
  | givesUp hcurrent =>
    refine .inr ⟨r, h.pass _ _, ?_⟩
    rw [strain, strain, hcurrent]
    exact Nat.lt_succ_self _
  | @takesTurn a next hcurrent hact =>
    obtain ⟨r', h'⟩ | ⟨r', h', hless⟩ := h.act hsteady hunfired hact (.inr hsuits)
    · exact .inl ⟨r', h'.pass _ _⟩
    · refine .inr ⟨r', h'.pass _ _, ?_⟩
      rw [strain, strain, hcurrent]
      show 2 * next.toil setup + 1 < 2 * c.toil setup + 0
      omega
  | ticks hcurrent hnone htick =>
    obtain ⟨hidle, hsend⟩ := idle_of_waiting hc hreader h.serves hcurrent hnone
    obtain ⟨h', hless⟩ := h.tick hidle hsend htick
    have hsame : c'.current = c.current := by
      obtain ⟨now, -, -, -, rfl⟩ := tick_eq_some_iff.1 htick
      rfl
    refine .inr ⟨r, h', ?_⟩
    rw [strain, strain, hsame]
    omega

end Crew

end StepRunner
