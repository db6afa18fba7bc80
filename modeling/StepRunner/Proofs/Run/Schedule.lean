import StepRunner.Proofs.Run.Transition
import StepRunner.Run.Stage

/-!
# Runs under any schedule

Which actor makes the next step is left open: a schedule is any list of moves.  The fair choice that
`Crew.finish` makes is one of them, so what holds under every schedule holds of it.

* `Crew.Move`, `Crew.play`    what may happen next, and what a list of moves comes to
* `Crew.Acts`                 what an act can be
* `Crew.Turns`                what the next step of the fair choice can be
* `finish_induction`          a schedule that the fair choice can be
* `exists_play_of_finish`     it is one
* `RunEvent`                  a step of a run or of one of its log tasks
* `Crew.events`               the steps that a schedule makes one run take
* `Crew.Touched`              what an act makes of the world
* `move_cases`                what a move makes of all runs
* `play_induction`            what each step keeps holds after all of them
* `play_induction_of`         so does what each step of some kind keeps, if all are of this kind
* `RunEvent.calls`            the calls on the platform that a step made
* `RunEvent.shown`            the snapshots that it was shown
-/

namespace StepRunner

variable {σ : Type}

/-- two worlds that have seen the same: they may differ in clock and token, in warnings, and in how
far the reader is -/
structure World.SameRecord (w w' : World σ) : Prop where
  state : w.state = w'.state
  calls : w.calls = w'.calls
  sent : w.channel.sent = w'.channel.sent

theorem World.SameRecord.refl (w : World σ) : w.SameRecord w := ⟨rfl, rfl, rfl⟩

theorem World.SameRecord.trans {w w' w'' : World σ} (h : w.SameRecord w')
    (h' : w'.SameRecord w'') : w.SameRecord w'' :=
  ⟨h.state.trans h'.state, h.calls.trans h'.calls, h.sent.trans h'.sent⟩

namespace Crew

/-! ## schedules -/

/-- what may happen next to runs side by side -/
inductive Move where
  | act (a : Actor)
  | tick
  /-- another actor is next, and others wait -/
  | pass (current : Option Actor) (waiting : List Actor)

/-- the runs after one move; a move that cannot be made changes nothing -/
def move (setup : Setup σ) (c : Crew σ) : Move → Crew σ
  | .act a => (c.act setup a).getD c
  | .tick => c.tick.getD c
  | .pass current waiting => { c with current, waiting }

/-- the runs after a list of moves -/
def play (setup : Setup σ) (c : Crew σ) (moves : List Move) : Crew σ :=
  moves.foldl (move setup) c

@[simp] theorem play_cons (setup : Setup σ) (c : Crew σ) (m : Move) (moves : List Move) :
    c.play setup (m :: moves) = (c.move setup m).play setup moves := rfl

@[simp] theorem play_append (setup : Setup σ) (c : Crew σ) (before after : List Move) :
    c.play setup (before ++ after) = (c.play setup before).play setup after :=
  List.foldl_append

variable {setup : Setup σ} {c c' : Crew σ}

/-- What an act can be. -/
inductive Acts (setup : Setup σ) (c : Crew σ) : Actor → Crew σ → Prop where
  | run {k : Nat} {r r' : Run} {w : World σ} (hr : c.runs[k]? = some r)
      (hact : r.act setup c.world = some (r', w)) :
      Acts setup c (.run k) { c with
        runs := c.runs.set k r'
        world := settle c.policy r' w
        waiting := c.waiting ++ newTasks k r r' }
  | logTask {k id : Nat} {r r' : Run} {world : World σ} (hr : c.runs[k]? = some r)
      (hact : r.actTask setup id c.world = some (r', world)) :
      Acts setup c (.logTask k id) { c with runs := c.runs.set k r', world }
  | reader {channel : Channel} (hreceive : c.world.channel.receive? = some channel) :
      Acts setup c .reader { c with world := { c.world with channel } }
  | canceller {time : Nat} (hat : c.world.cancelAt = some time) (hnow : time ≤ c.world.now) :
      Acts setup c .canceller
        { c with world := { c.world with cancelled := true, cancelAt := none } }

theorem acts_of_act {a : Actor} (h : c.act setup a = some c') : Acts setup c a c' := by
  unfold act at h
  split at h
  next =>
    split at h
    next => cases h
    next hr =>
      split at h
      next => cases h
      next hact =>
        cases h
        exact .run hr hact
  next =>
    split at h
    next => cases h
    next hr =>
      split at h
      next => cases h
      next hact =>
        cases h
        exact .logTask hr hact
  next =>
    split at h
    next => cases h
    next hreceive =>
      cases h
      exact .reader hreceive
  next =>
    split at h
    next => cases h
    next hat =>
      split at h
      next hnow =>
        cases h
        exact .canceller hat hnow
      next => cases h

theorem move_act {P : Crew σ → Prop} {a : Actor} (hstay : c.act setup a = none → P c)
    (hacts : ∀ c', Acts setup c a c' → P c') : P (c.move setup (.act a)) := by
  rw [move]
  cases hact : c.act setup a with
  | none => exact hstay hact
  | some c' => exact hacts c' (acts_of_act hact)

theorem act_of_firstAble {candidates : List Actor} {a : Actor}
    (h : c.firstAble setup candidates = some (a, c')) : c.act setup a = some c' := by
  induction candidates with
  | nil => cases h
  | cons b rest ih =>
    unfold firstAble at h
    split at h
    next hact =>
      cases h
      exact hact
    next => exact ih h

theorem act_eq_none_of_firstAble {candidates : List Actor}
    (h : c.firstAble setup candidates = none) : ∀ a ∈ candidates, c.act setup a = none := by
  induction candidates with
  | nil => simp
  | cons a rest ih =>
    unfold firstAble at h
    split at h
    next => cases h
    next hact => exact List.forall_mem_cons.2 ⟨hact, ih h⟩

/-- What the next step of the fair choice can be. -/
inductive Turns (setup : Setup σ) (c : Crew σ) : Crew σ → Prop where
  | goesOn {a : Actor} {next : Crew σ} (hcurrent : c.current = some a)
      (hact : c.act setup a = some next) : Turns setup c next
  | givesUp {a : Actor} (hcurrent : c.current = some a) :
      Turns setup c { c with current := none, waiting := c.waiting ++ [a] }
  | takesTurn {a : Actor} {next : Crew σ} (hcurrent : c.current = none)
      (hact : c.act setup a = some next) :
      Turns setup c { next with current := some a, waiting := next.waiting.erase a }
  | ticks {next : Crew σ} (hcurrent : c.current = none)
      (hnone : ∀ a ∈ c.waiting, c.act setup a = none) (htick : c.tick = some next) :
      Turns setup c next

theorem turns_of_turn (h : c.turn setup = some c') : Turns setup c c' := by
  unfold turn at h
  split at h
  next a hcurrent =>
    split at h
    next hact =>
      cases h
      exact .goesOn hcurrent hact
    next =>
      cases h
      exact .givesUp hcurrent
  next hcurrent =>
    split at h
    next a next hable =>
      cases h
      exact .takesTurn hcurrent (act_of_firstAble hable)
    next hnone => exact .ticks hcurrent (act_eq_none_of_firstAble hnone) h

theorem Turns.exists_play (ht : Turns setup c c') : ∃ moves, c' = c.play setup moves := by
  cases ht with
  | @goesOn a _ _ hact => exact ⟨[.act a], by simp [play, move, hact]⟩
  | @givesUp a => exact ⟨[.pass none (c.waiting ++ [a])], rfl⟩
  | @takesTurn a next _ hact =>
    exact ⟨[.act a, .pass (some a) (next.waiting.erase a)], by simp [play, move, hact]⟩
  | ticks _ _ htick => exact ⟨[.tick], by simp [play, move, htick]⟩

/-- The fair choice is a schedule of a kind if, as long as `P` holds, each of its steps is one and
keeps `P`. -/
theorem finish_induction {P : Crew σ → Prop} {Q : Crew σ → List Move → Prop}
    (hnil : ∀ c, Q c [])
    (happend : ∀ c before after, Q c before → Q (c.play setup before) after →
      Q c (before ++ after))
    (hturn : ∀ c c', P c → Turns setup c c' →
      P c' ∧ ∃ moves, Q c moves ∧ c' = c.play setup moves)
    (h : P c) (fuel : Nat) :
    ∃ moves, Q c moves ∧ c.finish setup fuel = c.play setup moves := by
  induction fuel generalizing c with
  | zero => exact ⟨[], hnil c, rfl⟩
  | succ fuel ih =>
    unfold finish
    split
    · exact ⟨[], hnil c, rfl⟩
    · cases hnext : c.turn setup with
      | none => exact ⟨[], hnil c, rfl⟩
      | some next =>
        obtain ⟨hkeep, first, hfirst, rfl⟩ := hturn c next h (turns_of_turn hnext)
        obtain ⟨rest, hrest, hplay⟩ := ih hkeep
        refine ⟨first ++ rest, happend c first rest hfirst hrest, ?_⟩
        rw [play_append]
        exact hplay

/-- **The fair choice is a schedule.** -/
theorem exists_play_of_finish (setup : Setup σ) (fuel : Nat) (c : Crew σ) :
    ∃ moves, c.finish setup fuel = c.play setup moves := by
  obtain ⟨moves, -, hplay⟩ := finish_induction (c := c) (P := fun _ => True)
    (Q := fun _ _ => True) (fun _ => trivial) (fun _ _ _ _ _ => trivial)
    (fun _ _ _ ht => ⟨trivial, ht.exists_play.imp fun _ h => ⟨trivial, h⟩⟩) trivial fuel
  exact ⟨moves, hplay⟩

end Crew

/-! ## the steps of one run -/

/-- a step of a run, or of the log task with a number, and the world before and after it -/
structure RunEvent (σ : Type) where
  task : Option Nat
  before : Run
  seen : World σ
  after : Run
  left : World σ

/-- whether it is a step that can be made -/
def RunEvent.Valid (setup : Setup σ) (e : RunEvent σ) : Prop :=
  match e.task with
  | none => e.before.act setup e.seen = some (e.after, e.left)
  | some id => e.before.actTask setup id e.seen = some (e.after, e.left)

namespace Crew

variable {setup : Setup σ} {c : Crew σ} {i : Nat} {r : Run}

/-- the step that a move makes run `i` take, if it does -/
def event? (setup : Setup σ) (i : Nat) (c : Crew σ) : Move → Option (RunEvent σ)
  | .act (.run k) =>
    if k = i then c.runs[i]?.bind fun r =>
      (r.act setup c.world).map fun (r', w) => ⟨none, r, c.world, r', w⟩
    else none
  | .act (.logTask k id) =>
    if k = i then c.runs[i]?.bind fun r =>
      (r.actTask setup id c.world).map fun (r', w) => ⟨some id, r, c.world, r', w⟩
    else none
  | _ => none

/-- the steps that a list of moves makes run `i` take, the oldest first -/
def events (setup : Setup σ) (i : Nat) (c : Crew σ) : List Move → List (RunEvent σ)
  | [] => []
  | m :: moves => (c.event? setup i m).toList ++ (c.move setup m).events setup i moves

theorem events_append (setup : Setup σ) (i : Nat) (c : Crew σ) (before after : List Move) :
    c.events setup i (before ++ after) =
      c.events setup i before ++ (c.play setup before).events setup i after := by
  induction before generalizing c with
  | nil => rfl
  | cons m before ih =>
    rw [List.cons_append, events, events, ih, List.append_assoc]
    rfl

theorem record_settle (policy : Option FailurePolicy) (r : Run) (w : World σ) :
    (settle policy r w).SameRecord w := by
  unfold settle
  split
  · split
    · exact .refl w
    · dsimp only
      split <;> exact ⟨rfl, rfl, rfl⟩
  · exact .refl w

theorem move_tick (setup : Setup σ) (c : Crew σ) :
    ∃ now, c.move setup .tick = { c with world := { c.world with now } } := by
  show ∃ now, c.tick.getD c = _
  unfold tick
  split
  next now _ => exact ⟨now, rfl⟩
  next => exact ⟨c.world.now, rfl⟩

/-- What the act of an actor makes of the world: nothing, or what a step of a run, a step of a log
task, the reader or the token makes of it. -/
inductive Touched (setup : Setup σ) (c : Crew σ) : World σ → Prop where
  | still : Touched setup c c.world
  | run {r r' : Run} {w : World σ} (ht : Run.Transition setup r c.world r' w) :
      Touched setup c (settle c.policy r' w)
  | logTask {t : LogTask} {result : LogTask.Result σ}
      (ht : LogTask.Transition setup.platform setup.config.sanitize t c.world result) :
      Touched setup c result.world
  | reader {channel : Channel} (hc : c.world.channel.receive? = some channel) :
      Touched setup c { c.world with channel }
  | canceller {time : Nat} (hat : c.world.cancelAt = some time) (hnow : time ≤ c.world.now) :
      Touched setup c { c.world with cancelled := true, cancelAt := none }

theorem touched_act (setup : Setup σ) (c : Crew σ) (a : Actor) :
    Touched setup c (c.move setup (.act a)).world := by
  refine move_act (P := fun c' => Touched setup c c'.world) (fun _ => .still) fun c' h => ?_
  cases h with
  | run _ hact => exact .run (Run.transition_of_act hact)
  | logTask _ hact =>
    obtain ⟨t, result, -, ht, rfl, -⟩ := Run.transition_of_actTask hact
    exact .logTask ht
  | reader hreceive => exact .reader hreceive
  | canceller hat hnow => exact .canceller hat hnow

theorem move_run {r' : Run} {w : World σ} (hr : c.runs[i]? = some r)
    (hact : r.act setup c.world = some (r', w)) :
    c.event? setup i (.act (.run i)) = some ⟨none, r, c.world, r', w⟩ ∧
      c.move setup (.act (.run i)) = { c with
        runs := c.runs.set i r'
        world := settle c.policy r' w
        waiting := c.waiting ++ newTasks i r r' } := by
  constructor
  · simp only [event?, if_true, hr, Option.bind_some, hact, Option.map_some]
  · simp only [move, act, hr, hact, Option.getD_some]

theorem move_logTask {id : Nat} {r' : Run} {world : World σ} (hr : c.runs[i]? = some r)
    (hact : r.actTask setup id c.world = some (r', world)) :
    c.event? setup i (.act (.logTask i id)) = some ⟨some id, r, c.world, r', world⟩ ∧
      c.move setup (.act (.logTask i id)) = { c with runs := c.runs.set i r', world } := by
  constructor
  · simp only [event?, if_true, hr, Option.bind_some, hact, Option.map_some]
  · simp only [move, act, hr, hact, Option.getD_some]

theorem runs_move_act {a : Actor} (hrun : a ≠ .run i) (htask : ∀ id, a ≠ .logTask i id) :
    (c.move setup (.act a)).runs[i]? = c.runs[i]? := by
  refine move_act (P := fun c' => c'.runs[i]? = c.runs[i]?) (fun _ => rfl) fun c' h => ?_
  cases h with
  | run => exact List.getElem?_set_ne fun hk => hrun (by rw [hk])
  | logTask => exact List.getElem?_set_ne fun hk => htask _ (by rw [hk])
  | reader | canceller => rfl

/-- A move makes run `i` take a step from where it is to where it is then, or leaves it alone. -/
theorem move_view (hr : c.runs[i]? = some r) (m : Move) :
    (c.event? setup i m = none ∧ (c.move setup m).runs[i]? = some r) ∨
    ∃ e, c.event? setup i m = some e ∧ e.Valid setup ∧ e.before = r ∧ e.seen = c.world ∧
      (c.move setup m).runs[i]? = some e.after ∧
      (c.move setup m).world.calls = e.left.calls := by
  have hset (r' : Run) : (c.runs.set i r')[i]? = some r' :=
    List.getElem?_set_self (List.getElem?_eq_some_iff.1 hr).1
  cases m with
  | tick =>
    obtain ⟨now, hmove⟩ := move_tick setup c
    exact .inl ⟨rfl, by rw [hmove]; exact hr⟩
  | pass current waiting => exact .inl ⟨rfl, hr⟩
  | act a =>
    by_cases hrun : a = .run i
    · subst hrun
      cases hact : r.act setup c.world with
      | none =>
        have hstay : c.act setup (.run i) = none := by simp only [act, hr, hact]
        exact .inl ⟨by simp [event?, hr, hact], by simpa [move, hstay] using hr⟩
      | some p =>
        obtain ⟨hevent, hmove⟩ := move_run hr hact
        rw [hevent, hmove]
        exact .inr ⟨_, rfl, hact, rfl, rfl, hset p.1, (record_settle c.policy p.1 p.2).calls⟩
    · by_cases htask : ∃ id, a = .logTask i id
      · obtain ⟨id, rfl⟩ := htask
        cases hact : r.actTask setup id c.world with
        | none =>
          have hstay : c.act setup (.logTask i id) = none := by simp only [act, hr, hact]
          exact .inl ⟨by simp [event?, hr, hact], by simpa [move, hstay] using hr⟩
        | some p =>
          obtain ⟨hevent, hmove⟩ := move_logTask hr hact
          rw [hevent, hmove]
          exact .inr ⟨_, rfl, hact, rfl, rfl, hset p.1, rfl⟩
      · rw [not_exists] at htask
        refine .inl ⟨?_, (runs_move_act hrun htask).trans hr⟩
        cases a with
        | run k => exact if_neg fun hk => hrun (by rw [hk])
        | logTask k id => exact if_neg fun hk => htask id (by rw [hk])
        | reader => rfl
        | canceller => rfl

theorem event?_of_act_eq_none {a : Actor} (h : c.act setup a = none) (i : Nat) :
    c.event? setup i (.act a) = none := by
  cases a with
  | run k =>
    by_cases hk : k = i
    · subst hk
      cases hr : c.runs[k]? with
      | none => simp [event?, hr]
      | some r =>
        cases hact : r.act setup c.world with
        | none => simp [event?, hr, hact]
        | some p => simp [act, hr, hact] at h
    · exact if_neg hk
  | logTask k id =>
    by_cases hk : k = i
    · subst hk
      cases hr : c.runs[k]? with
      | none => simp [event?, hr]
      | some r =>
        cases hact : r.actTask setup id c.world with
        | none => simp [event?, hr, hact]
        | some p => simp [act, hr, hact] at h
    · exact if_neg hk
  | reader => rfl
  | canceller => rfl

theorem move_cases (setup : Setup σ) (c : Crew σ) (m : Move) :
    ((∀ i, c.event? setup i m = none) ∧ (c.move setup m).runs = c.runs ∧
      (c.move setup m).world.SameRecord c.world) ∨
    ∃ i e, c.runs[i]? = some e.before ∧ e.seen = c.world ∧ e.Valid setup ∧
      c.event? setup i m = some e ∧ (∀ j, j ≠ i → c.event? setup j m = none) ∧
      (c.move setup m).runs = c.runs.set i e.after ∧
      (c.move setup m).world.SameRecord e.left := by
  cases m with
  | tick =>
    obtain ⟨now, hmove⟩ := move_tick setup c
    rw [hmove]
    exact .inl ⟨fun _ => rfl, rfl, rfl, rfl, rfl⟩
  | pass current waiting => exact .inl ⟨fun _ => rfl, rfl, .refl _⟩
  | act a =>
    cases hact : c.act setup a with
    | none =>
      have hstay : c.move setup (.act a) = c := by simp only [move, hact, Option.getD_none]
      rw [hstay]
      exact .inl ⟨event?_of_act_eq_none hact, rfl, .refl _⟩
    | some c' =>
      have hmove : c.move setup (.act a) = c' := by simp only [move, hact, Option.getD_some]
      rw [hmove]
      cases acts_of_act hact with
      | @run k r r' w hr hown =>
        exact .inr ⟨k, ⟨none, r, c.world, r', w⟩, hr, rfl, hown, (move_run hr hown).1,
          fun j hj => if_neg (Ne.symm hj), rfl, record_settle c.policy r' w⟩
      | @logTask k id r r' w hr hown =>
        exact .inr ⟨k, ⟨some id, r, c.world, r', w⟩, hr, rfl, hown, (move_logTask hr hown).1,
          fun j hj => if_neg (Ne.symm hj), rfl, .refl _⟩
      | @reader channel hreceive =>
        -- the reader takes a line that stays among those sent
        have hsent : channel.sent = c.world.channel.sent := by
          unfold Channel.receive? at hreceive
          split at hreceive
          next => cases hreceive
          next =>
            cases hreceive
            rfl
        exact .inl ⟨fun _ => rfl, rfl, rfl, rfl, hsent⟩
      | canceller => exact .inl ⟨fun _ => rfl, rfl, rfl, rfl, rfl⟩

theorem record_of_event {m : Move} {e : RunEvent σ}
    (h : c.event? setup i m = some e) : (c.move setup m).world.SameRecord e.left := by
  obtain ⟨hnone, -⟩ | ⟨k, e', -, -, -, hevent, hothers, -, hsame⟩ := move_cases setup c m
  · rw [hnone] at h
    cases h
  · by_cases hk : i = k
    · subst hk
      obtain rfl : e' = e := Option.some.inj (hevent.symm.trans h)
      exact hsame
    · rw [hothers i hk] at h
      cases h

theorem play_induction_from {Q : List (RunEvent σ) → Run → Prop}
    (hstep : ∀ past e, Q past e.before → e.Valid setup → Q (past ++ [e]) e.after)
    (moves : List Move) {past : List (RunEvent σ)} (hr : c.runs[i]? = some r) (hQ : Q past r) :
    ∃ r', (c.play setup moves).runs[i]? = some r' ∧ Q (past ++ c.events setup i moves) r' := by
  induction moves generalizing c r past with
  | nil =>
    refine ⟨r, hr, ?_⟩
    rw [events, List.append_nil]
    exact hQ
  | cons m moves ih =>
    rw [events, ← List.append_assoc]
    obtain ⟨hevent, hr'⟩ | ⟨e, hevent, hvalid, rfl, -, hr', -⟩ := move_view hr m
    · rw [hevent]
      exact ih hr' (by simpa using hQ)
    · rw [hevent]
      exact ih hr' (hstep past e hQ hvalid)

/-- **What each step of a run keeps holds of the run under every schedule**, together with the steps
that it has taken. -/
theorem play_induction {Q : List (RunEvent σ) → Run → Prop}
    (hstep : ∀ past e, Q past e.before → e.Valid setup → Q (past ++ [e]) e.after)
    (moves : List Move) (hr : c.runs[i]? = some r) (hQ : Q [] r) :
    ∃ r', (c.play setup moves).runs[i]? = some r' ∧ Q (c.events setup i moves) r' :=
  play_induction_from hstep moves hr hQ

/-- what each step of some kind keeps holds of the run if all its steps are of this kind -/
theorem play_induction_of {P : RunEvent σ → Prop} {Q : List (RunEvent σ) → Run → Prop}
    (hstep : ∀ past e, P e → Q past e.before → e.Valid setup → Q (past ++ [e]) e.after)
    (moves : List Move) (hP : ∀ e ∈ c.events setup i moves, P e) (hr : c.runs[i]? = some r)
    (hQ : Q [] r) :
    ∃ r', (c.play setup moves).runs[i]? = some r' ∧ Q (c.events setup i moves) r' := by
  obtain ⟨r', hr', h⟩ := play_induction (Q := fun past r => (∀ e ∈ past, P e) → Q past r)
    (fun past e h hv hall => by
      obtain ⟨hbefore, hlast⟩ := List.forall_mem_append.1 hall
      exact hstep past e (hlast e List.mem_cons_self) (h hbefore) hv)
    moves hr (fun _ => hQ)
  exact ⟨r', hr', h hP⟩

end Crew

/-! ## what a step did on the platform -/

namespace RunEvent

/-- the calls that a step made, the oldest first -/
def calls (e : RunEvent σ) : List CallRecord :=
  (e.left.calls.take (e.left.calls.length - e.seen.calls.length)).reverse

theorem calls_of_append {e : RunEvent σ} (made : List CallRecord)
    (h : e.left.calls = made ++ e.seen.calls) : e.calls = made.reverse := by
  rw [calls, h, List.length_append, Nat.add_sub_cancel, List.take_left]

/-- the snapshots that a step was shown: what the platform answered to its looks -/
def shown (setup : Setup σ) (e : RunEvent σ) : List PodSnapshot :=
  e.calls.flatMap fun c =>
    match c.event with
    | .fetched _ => (setup.platform.fetch c.pod e.seen.state).1.toOption.toList
    | _ => []

variable {setup : Setup σ} {e : RunEvent σ}

theorem shown_of_no_call (h : e.left.calls = e.seen.calls) : e.shown setup = [] := by
  rw [shown, calls_of_append [] h]
  rfl

theorem shown_of_opened {time : Nat} {pod : PodRef} {container : String}
    (h : e.left.calls = ⟨time, pod, .opened container⟩ :: e.seen.calls) : e.shown setup = [] := by
  rw [shown, calls_of_append [_] h]
  rfl

theorem shown_of_deleted {time : Nat} {pod : PodRef} {ok : Bool}
    (h : e.left.calls = ⟨time, pod, .deleted ok⟩ :: e.seen.calls) : e.shown setup = [] := by
  rw [shown, calls_of_append [_] h]
  rfl

theorem shown_of_fetch {pod : PodRef}
    (h : e.left.calls = (e.seen.fetch setup.platform pod).2.calls) :
    e.shown setup = (e.seen.fetch setup.platform pod).1.toOption.toList := by
  rw [shown, calls_of_append [_] h]
  exact List.append_nil _

end RunEvent

/-! ## a run on its own -/

namespace Crew

variable {setup : Setup σ} {c : Crew σ} {r : Run}

theorem length_runs_move (m : Move) : (c.move setup m).runs.length = c.runs.length := by
  cases m with
  | tick =>
    obtain ⟨now, hmove⟩ := move_tick setup c
    rw [hmove]
  | pass current waiting => rfl
  | act a =>
    refine move_act (P := fun c' => c'.runs.length = c.runs.length) (fun _ => rfl) fun c' h => ?_
    cases h with
    | run | logTask => exact List.length_set
    | reader | canceller => rfl

theorem length_runs_play (moves : List Move) :
    (c.play setup moves).runs.length = c.runs.length := by
  induction moves generalizing c with
  | nil => rfl
  | cons m moves ih => exact ih.trans (length_runs_move m)

theorem getElem?_of_sole (hr : c.runs = [r]) : c.runs[0]? = some r := by
  rw [hr]
  rfl

theorem eq_of_sole (hr : c.runs = [r]) {k : Nat} {s : Run} (hs : c.runs[k]? = some s) :
    k = 0 ∧ s = r := by
  rw [hr] at hs
  cases k with
  | zero => exact ⟨rfl, (Option.some.inj hs).symm⟩
  | succ k => cases hs

theorem sole_of_getElem? {c' : Crew σ} {r' : Run} (hr : c.runs = [r])
    (hl : c'.runs.length = c.runs.length) (hr' : c'.runs[0]? = some r') : c'.runs = [r'] := by
  rw [hr] at hl
  obtain ⟨s, hs⟩ := List.length_eq_one_iff.1 hl
  rw [hs] at hr' ⊢
  simpa using hr'

theorem sole_move {m : Move} {r' : Run} (hr : c.runs = [r])
    (hr' : (c.move setup m).runs[0]? = some r') : (c.move setup m).runs = [r'] :=
  sole_of_getElem? hr (length_runs_move m) hr'

theorem sole_play {moves : List Move} {r' : Run} (hr : c.runs = [r])
    (hr' : (c.play setup moves).runs[0]? = some r') : (c.play setup moves).runs = [r'] :=
  sole_of_getElem? hr (length_runs_play moves) hr'

theorem calls_move_of_sole (hr : c.runs = [r]) {m : Move} (h : c.event? setup 0 m = none) :
    (c.move setup m).world.calls = c.world.calls := by
  cases m with
  | tick =>
    obtain ⟨now, hmove⟩ := move_tick setup c
    rw [hmove]
  | pass current waiting => rfl
  | act a =>
    refine move_act (P := fun c' => c'.world.calls = c.world.calls) (fun _ => rfl)
      fun c' hacts => ?_
    cases hacts with
    | run hs hact =>
      obtain ⟨rfl, -⟩ := eq_of_sole hr hs
      rw [(move_run hs hact).1] at h
      cases h
    | logTask hs hact =>
      obtain ⟨rfl, -⟩ := eq_of_sole hr hs
      rw [(move_logTask hs hact).1] at h
      cases h
    | reader | canceller => rfl

theorem move_view_of_sole (hr : c.runs = [r]) (m : Move) :
    ((c.move setup m).runs = [r] ∧ (c.move setup m).world.calls = c.world.calls) ∨
    ∃ e : RunEvent σ, e.Valid setup ∧ e.before = r ∧ e.seen = c.world ∧
      (c.move setup m).runs = [e.after] ∧ (c.move setup m).world.calls = e.left.calls := by
  obtain ⟨hevent, hr'⟩ | ⟨e, -, hvalid, hbefore, hseen, hr', hcalls⟩ :=
    move_view (getElem?_of_sole hr) m
  · exact .inl ⟨sole_move hr hr', calls_move_of_sole hr hevent⟩
  · exact .inr ⟨e, hvalid, hbefore, hseen, sole_move hr hr', hcalls⟩

end Crew

end StepRunner
