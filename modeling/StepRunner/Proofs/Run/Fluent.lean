import StepRunner.Proofs.Run.Prompt
import StepRunner.Proofs.Run.Results

/-!
# Fluent schedules

A reader that takes every line keeps no one waiting for long: in a fluent schedule the clock moves
on only when no run, no log task and no one who fires the token can make a step, and the next line
could be sent at once.  Without a reader this is always so.  The fair choice is fluent: the reader
has its turn like all others, and takes what there is before the clock moves on.

* `Crew.isFluent`        the clock moves on only when no one can make a step or waits for the reader
* `Channel.Serves`       a reader that is gone, or has room for a line
* `fluent_of_finish`     the fair choice is a fluent schedule
-/

namespace StepRunner

variable {σ : Type}

/-- whether no one has to wait for the reader for ever: there is none, or there is room for a line
-/
def Channel.Serves (c : Channel) : Prop := c.isOpen = true → 0 < c.room

theorem Channel.Serves.canSend {c : Channel} (h : c.Serves) (hempty : c.receive? = none) :
    c.canSend = true := by
  have hnone : c.underWay = 0 := by
    unfold receive? at hempty
    split at hempty
    next hnone => exact hnone
    next => cases hempty
  unfold Channel.canSend
  cases hopen : c.isOpen with
  | false => rfl
  | true => simpa [hnone] using h hopen

theorem Channel.underWay_of_receive {c c' : Channel} (h : c.receive? = some c') :
    c'.underWay < c.underWay := by
  unfold receive? at h
  split at h
  next => cases h
  next n hsome =>
    cases h
    rw [hsome]
    exact Nat.lt_succ_self n

namespace Crew

variable {setup : Setup σ} {c c' : Crew σ} {a b : Actor} {m : Move}

theorem serves_move (h : c.world.channel.Serves) (m : Move) :
    (c.move setup m).world.channel.Serves := by
  intro hopen
  rw [room_move]
  exact h ((grows_move setup c m).1.symm.trans hopen)

theorem serves_play (h : c.world.channel.Serves) (moves : List Move) :
    (c.play setup moves).world.channel.Serves := by
  induction moves generalizing c with
  | nil => exact h
  | cons m moves ih => exact ih (serves_move h m)

/-! ## fluency -/

/-- whether the clock moves on only when no one can make a step, and the next line can be sent -/
def isFluent (setup : Setup σ) (c : Crew σ) : List Move → Bool
  | [] => true
  | .tick :: moves =>
    c.isIdle setup && c.world.channel.canSend && (c.move setup .tick).isFluent setup moves
  | m :: moves => (c.move setup m).isFluent setup moves

theorem isFluent_cons_iff {moves : List Move} :
    c.isFluent setup (m :: moves) = true ↔
      (m = .tick → c.isIdle setup = true ∧ c.world.channel.canSend = true) ∧
        (c.move setup m).isFluent setup moves = true := by
  cases m with
  | tick => simp [isFluent]
  | act a => simp [isFluent]
  | pass current waiting => simp [isFluent]

theorem isFluent_append {before after : List Move} :
    c.isFluent setup (before ++ after) = true ↔
      c.isFluent setup before = true ∧ (c.play setup before).isFluent setup after = true := by
  induction before generalizing c with
  | nil => simp [isFluent, play]
  | cons m before ih =>
    rw [List.cons_append, isFluent_cons_iff, isFluent_cons_iff, ih, play_cons, and_assoc]

theorem isPrompt_of_isFluent {moves : List Move} (h : c.isFluent setup moves = true) :
    c.isPrompt setup moves = true := by
  induction moves generalizing c with
  | nil => rfl
  | cons m moves ih =>
    obtain ⟨htick, hrest⟩ := isFluent_cons_iff.1 h
    exact isPrompt_cons_iff.2 ⟨fun hm => (htick hm).1, ih hrest⟩

/-! ## the fair choice -/

theorem idle_of_waiting (hc : c.Complete) (hr : c.HasTurn .reader) (hs : c.world.channel.Serves)
    (hcurrent : c.current = none) (hnone : ∀ a ∈ c.waiting, c.act setup a = none) :
    c.isIdle setup = true ∧ c.world.channel.canSend = true := by
  refine ⟨hc.isIdle hcurrent hnone, hs.canSend ?_⟩
  have hreader := hr.act_eq_none hcurrent hnone
  cases hreceive : c.world.channel.receive? with
  | none => rfl
  | some channel => simp [act, hreceive] at hreader

/-- **Each step of the fair choice is fluent**: the clock moves on when no one who waits for a turn
can make a step, and the reader is one of them. -/
theorem Turns.exists_fluent (ht : Turns setup c c') (hc : c.Complete) (hr : c.HasTurn .reader)
    (hs : c.world.channel.Serves) :
    ∃ moves, c.isFluent setup moves = true ∧ c' = c.play setup moves := by
  cases ht with
  | @goesOn a _ _ hact => exact ⟨[.act a], rfl, by simp [play, move, hact]⟩
  | @givesUp a => exact ⟨[.pass none (c.waiting ++ [a])], rfl, rfl⟩
  | @takesTurn a next _ hact =>
    exact ⟨[.act a, .pass (some a) (next.waiting.erase a)], rfl, by simp [play, move, hact]⟩
  | ticks hcurrent hnone htick =>
    have hidle := idle_of_waiting hc hr hs hcurrent hnone
    exact ⟨[.tick], isFluent_cons_iff.2 ⟨fun _ => hidle, rfl⟩, by simp [play, move, htick]⟩

theorem fluent_of_finish (setup : Setup σ) (hc : c.Complete) (hr : c.HasTurn .reader)
    (hs : c.world.channel.Serves) (fuel : Nat) :
    ∃ moves, c.isFluent setup moves = true ∧ c.finish setup fuel = c.play setup moves := by
  refine finish_induction (P := fun c => c.Complete ∧ c.HasTurn .reader ∧ c.world.channel.Serves)
    (Q := fun c moves => c.isFluent setup moves = true) (fun _ => rfl)
    (fun _ _ _ hbefore hafter => isFluent_append.2 ⟨hbefore, hafter⟩)
    (fun c c' h ht => ?_) ⟨hc, hr, hs⟩ fuel
  obtain ⟨hc, hr, hs⟩ := h
  obtain ⟨moves, hfluent, rfl⟩ := ht.exists_fluent hc hr hs
  exact ⟨⟨hc.turn ht, hr.turn ht, serves_play hs moves⟩, moves, hfluent, rfl⟩

theorem fluent_of_runStep (setup : Setup σ) (fuel : Nat) (step : StepDefinition)
    {world : World σ} (hs : world.channel.Serves) :
    ∃ moves, (ofRuns [{ step }] world none).isFluent setup moves = true ∧
      runStep setup fuel step world = (ofRuns [{ step }] world none).play setup moves := by
  refine fluent_of_finish setup (complete_ofRuns (fun r hr => ?_) world none)
    (.inr List.mem_cons_self) hs fuel
  rw [List.mem_singleton.1 hr]

end Crew

end StepRunner
