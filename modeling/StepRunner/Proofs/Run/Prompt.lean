import StepRunner.Proofs.Run.Progress

/-!
# Prompt schedules

Time passes only while everyone waits: in a prompt schedule the clock moves on when no run, no log
task and no one who fires the token can make a step.  The reader may take its time, for it is not
part of the runs.  The fair choice is prompt.

* `Crew.staff`            all who act, but for the reader
* `Crew.isIdle`           none of them can make a step
* `Crew.isPrompt`         the clock moves on only then
* `Crew.HasTurn`          an actor that has its turn or waits for it
* `Crew.Complete`         all who act do
* `prompt_of_finish`      the fair choice is a prompt schedule
-/

namespace StepRunner

variable {σ : Type}

namespace Crew

variable {setup : Setup σ} {c c' : Crew σ} {a b : Actor} {m : Move} {moves : List Move}

/-! ## promptness -/

/-- all who act, but for the reader, who takes the lines when it likes -/
def staff (c : Crew σ) : List Actor :=
  .canceller :: c.runs.zipIdx.flatMap fun (r, i) => .run i :: r.tasks.map fun t => .logTask i t.id

/-- whether none of them can make a step -/
def isIdle (setup : Setup σ) (c : Crew σ) : Bool := c.staff.all fun a => (c.act setup a).isNone

/-- whether the clock moves on only when no one can make a step -/
def isPrompt (setup : Setup σ) (c : Crew σ) : List Move → Bool
  | [] => true
  | .tick :: moves => c.isIdle setup && (c.move setup .tick).isPrompt setup moves
  | m :: moves => (c.move setup m).isPrompt setup moves

theorem isPrompt_cons_iff :
    c.isPrompt setup (m :: moves) = true ↔
      (m = .tick → c.isIdle setup = true) ∧ (c.move setup m).isPrompt setup moves = true := by
  cases m with
  | tick => simp [isPrompt]
  | act a => simp [isPrompt]
  | pass current waiting => simp [isPrompt]

theorem isPrompt_append {before after : List Move} :
    c.isPrompt setup (before ++ after) = true ↔
      c.isPrompt setup before = true ∧ (c.play setup before).isPrompt setup after = true := by
  induction before generalizing c with
  | nil => simp [isPrompt, play]
  | cons m before ih =>
    rw [List.cons_append, isPrompt_cons_iff, isPrompt_cons_iff, ih, play_cons, and_assoc]

theorem mem_staff_iff : a ∈ c.staff ↔ a = .canceller ∨ ∃ i r, c.runs[i]? = some r ∧
    (a = .run i ∨ ∃ t ∈ r.tasks, a = .logTask i t.id) := by
  simp only [staff, List.mem_cons, List.mem_flatMap, Prod.exists, List.mem_zipIdx_iff_getElem?,
    List.mem_map, eq_comm (a := a)]
  constructor
  · rintro (h | ⟨r, i, hr, h⟩)
    · exact .inl h
    · exact .inr ⟨i, r, hr, h⟩
  · rintro (h | ⟨i, r, hr, h⟩)
    · exact .inl h
    · exact .inr ⟨r, i, hr, h⟩

/-! ## the fair choice -/

/-- an actor that has its turn or waits for it -/
def HasTurn (c : Crew σ) (a : Actor) : Prop := c.current = some a ∨ a ∈ c.waiting

/-- whether all who act have their turn or wait for it -/
def Complete (c : Crew σ) : Prop := ∀ a ∈ c.staff, c.current = some a ∨ a ∈ c.waiting

theorem complete_ofRuns {runs : List Run} (h : ∀ r ∈ runs, r.tasks = []) (world : World σ)
    (policy : Option FailurePolicy) : (ofRuns runs world policy).Complete := by
  intro a ha
  right
  show a ∈ actors runs.length
  rcases mem_staff_iff.1 ha with rfl | ⟨i, r, hr, rfl | ⟨t, ht, -⟩⟩
  · simp [actors]
  · have hlt : i < runs.length := (List.getElem?_eq_some_iff.1 hr).1
    simpa [actors] using hlt
  · rw [h r (List.mem_of_getElem? hr)] at ht
    cases ht

/-- who acts after a step of run `k` or of its log tasks has acted before, or is one of `more` -/
theorem Complete.set (h : c.Complete) {k : Nat} {r r' : Run} (hr : c.runs[k]? = some r)
    (hruns : c'.runs = c.runs.set k r') (hcurrent : c'.current = c.current) {more : List Actor}
    (hwaiting : c'.waiting = c.waiting ++ more)
    (hmore : ∀ t ∈ r'.tasks, (∃ u ∈ r.tasks, u.id = t.id) ∨ .logTask k t.id ∈ more) :
    c'.Complete := by
  have hkeep (b : Actor) (hb : b ∈ c.staff) : c'.current = some b ∨ b ∈ c'.waiting := by
    rw [hcurrent, hwaiting]
    exact (h b hb).imp_right (List.mem_append_left more)
  intro b hb
  rcases mem_staff_iff.1 hb with rfl | ⟨i, s, hs, hb⟩
  · exact hkeep _ (mem_staff_iff.2 (.inl rfl))
  · by_cases hi : i = k
    · subst hi
      rw [hruns, List.getElem?_set_self (List.getElem?_eq_some_iff.1 hr).1] at hs
      cases hs
      rcases hb with rfl | ⟨t, ht, rfl⟩
      · exact hkeep _ (mem_staff_iff.2 (.inr ⟨i, r, hr, .inl rfl⟩))
      · rcases hmore t ht with ⟨u, hu, hid⟩ | hnew
        · rw [← hid]
          exact hkeep _ (mem_staff_iff.2 (.inr ⟨i, r, hr, .inr ⟨u, hu, rfl⟩⟩))
        · rw [hwaiting]
          exact .inr (List.mem_append_right _ hnew)
    · rw [hruns, List.getElem?_set_ne (Ne.symm hi)] at hs
      exact hkeep b (mem_staff_iff.2 (.inr ⟨i, s, hs, hb⟩))

theorem Complete.act (h : c.Complete) (hact : c.act setup a = some c') :
    c'.Complete ∧ c'.current = c.current := by
  cases acts_of_act hact with
  | @run k r r' w hr hrun =>
    obtain ⟨new, hforks⟩ :=
      Run.forks_of_transition (e := ⟨none, r, c.world, r', w⟩) (Run.transition_of_act hrun)
    refine ⟨h.set hr rfl rfl rfl fun t ht => ?_, rfl⟩
    rcases hforks.mem_tasks ht with ht | ⟨hle, hlt⟩
    · exact .inl ⟨t, ht, rfl⟩
    · right
      refine List.mem_map.2 ⟨t.id - r.started, List.mem_range.2 ?_, ?_⟩
      · exact Nat.sub_lt_sub_right hle hlt
      · rw [Nat.add_sub_cancel' hle]
  | @logTask k id r r' w hr htask =>
    obtain ⟨t, result, hfind, ht, -, rfl⟩ := Run.transition_of_actTask htask
    refine ⟨h.set hr rfl rfl (List.append_nil _).symm fun u hu => .inl ?_, rfl⟩
    rcases Run.mem_putTask hu with rfl | ⟨hu, -⟩
    · have hid := (ht.outputs (e := ⟨some id, r, c.world, r, result.world⟩) rfl).1
      exact ⟨t, List.mem_of_find?_eq_some hfind, hid.symm⟩
    · exact ⟨u, hu, rfl⟩
  | reader | canceller => exact ⟨h, rfl⟩

theorem HasTurn.act (h : c.HasTurn b) (hact : c.act setup a = some c') :
    c'.current = c.current ∧ c'.HasTurn b := by
  cases acts_of_act hact with
  | run => exact ⟨rfl, h.imp_right (List.mem_append_left _)⟩
  | logTask | reader | canceller => exact ⟨rfl, h⟩

theorem HasTurn.givesUp (h : c.HasTurn b) (hcurrent : c.current = some a) :
    ({ c with current := none, waiting := c.waiting ++ [a] } : Crew σ).HasTurn b := by
  right
  obtain hb | hb := h
  · rw [hcurrent] at hb
    cases hb
    exact List.mem_append_right _ List.mem_cons_self
  · exact List.mem_append_left _ hb

theorem HasTurn.takesTurn (h : c.HasTurn b) (hcurrent : c.current = none) (a : Actor) :
    ({ c with current := some a, waiting := c.waiting.erase a } : Crew σ).HasTurn b := by
  by_cases hab : b = a
  · exact .inl (by rw [hab])
  · obtain hb | hb := h
    · rw [hcurrent] at hb
      cases hb
    · exact .inr ((List.mem_erase_of_ne hab).2 hb)

theorem HasTurn.turn (h : c.HasTurn b) (ht : Turns setup c c') : c'.HasTurn b := by
  cases ht with
  | goesOn _ hact => exact (h.act hact).2
  | givesUp hcurrent => exact h.givesUp hcurrent
  | takesTurn hcurrent hact =>
    obtain ⟨hsame, hnext⟩ := h.act hact
    exact hnext.takesTurn (hsame.trans hcurrent) _
  | ticks _ _ htick =>
    obtain ⟨now, -, -, -, rfl⟩ := tick_eq_some_iff.1 htick
    exact h

theorem HasTurn.act_eq_none (h : c.HasTurn a) (hcurrent : c.current = none)
    (hnone : ∀ a ∈ c.waiting, c.act setup a = none) : c.act setup a = none := by
  obtain ha | ha := h
  · rw [hcurrent] at ha
    cases ha
  · exact hnone a ha

theorem Complete.turn (h : c.Complete) (ht : Turns setup c c') : c'.Complete := by
  cases ht with
  | goesOn _ hact => exact (h.act hact).1
  | givesUp hcurrent => exact fun b hb => HasTurn.givesUp (h b hb) hcurrent
  | takesTurn hcurrent hact =>
    obtain ⟨hnext, hsame⟩ := h.act hact
    exact fun b hb => HasTurn.takesTurn (hnext b hb) (hsame.trans hcurrent) _
  | ticks _ _ htick =>
    obtain ⟨now, -, -, -, rfl⟩ := tick_eq_some_iff.1 htick
    exact h

theorem Complete.isIdle (h : c.Complete) (hcurrent : c.current = none)
    (hnone : ∀ a ∈ c.waiting, c.act setup a = none) : c.isIdle setup = true := by
  refine List.all_eq_true.2 fun a ha => ?_
  rw [HasTurn.act_eq_none (h a ha) hcurrent hnone]
  rfl

/-- **Each step of the fair choice is prompt**: the clock moves on when no one who waits for a turn
can make a step, and these are all who act. -/
theorem Turns.exists_prompt (ht : Turns setup c c') (h : c.Complete) :
    ∃ moves, c.isPrompt setup moves = true ∧ c' = c.play setup moves := by
  cases ht with
  | @goesOn a _ _ hact => exact ⟨[.act a], rfl, by simp [play, move, hact]⟩
  | @givesUp a => exact ⟨[.pass none (c.waiting ++ [a])], rfl, rfl⟩
  | @takesTurn a next _ hact =>
    exact ⟨[.act a, .pass (some a) (next.waiting.erase a)], rfl, by simp [play, move, hact]⟩
  | ticks hcurrent hnone htick =>
    have hidle := h.isIdle hcurrent hnone
    exact ⟨[.tick], isPrompt_cons_iff.2 ⟨fun _ => hidle, rfl⟩, by simp [play, move, htick]⟩

theorem prompt_of_finish (h : c.Complete) (fuel : Nat) :
    ∃ moves, c.isPrompt setup moves = true ∧ c.finish setup fuel = c.play setup moves :=
  finish_induction (P := Complete) (Q := fun c moves => c.isPrompt setup moves = true)
    (fun _ => rfl)
    (fun _ _ _ hbefore hafter => isPrompt_append.2 ⟨hbefore, hafter⟩)
    (fun _ _ h ht => ⟨h.turn ht, ht.exists_prompt h⟩) h fuel

theorem prompt_of_runStep (setup : Setup σ) (fuel : Nat) (step : StepDefinition)
    (world : World σ) :
    ∃ moves, (ofRuns [{ step }] world none).isPrompt setup moves = true ∧
      runStep setup fuel step world = (ofRuns [{ step }] world none).play setup moves := by
  refine prompt_of_finish (complete_ofRuns ?_ world none) fuel
  intro r hr
  rw [List.mem_singleton.1 hr]

end Crew

end StepRunner
