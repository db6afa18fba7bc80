import StepRunner.Proofs.Run.Progress

/-!
# From creation to deletion

What a run calls on the platform is the life of one pod, which it creates, looks at and deletes in
the end.  As long as the run is not over it can go on, and there are only so many steps that it can
make.  What the deletion comes to does not change what becomes of it.

* `Setup.withDelete`       the same surroundings with other answers to deletions
* `runs_play_withDelete`   what becomes of a run with these
* `lifecycle_of_play`      the calls of a run on its own are the life of one pod
-/

namespace StepRunner

variable {σ : Type}

/-! ## deleting the pod -/

/-- the same surroundings with other answers to deletions -/
def Setup.withDelete (setup : Setup σ) (delete : PodRef → σ → Except ClusterError Unit × σ) :
    Setup σ :=
  { setup with platform := { setup.platform with delete } }

variable {setup : Setup σ} {delete : PodRef → σ → Except ClusterError Unit × σ}

namespace Run

variable {r : Run}

theorem act_withDelete_of_phase (setup : Setup σ)
    (delete : PodRef → σ → Except ClusterError Unit × σ) (w : World σ)
    (h : ∀ spec outcome, r.phase ≠ .deleting spec outcome) :
    r.act (setup.withDelete delete) w = r.act setup w := by
  unfold act
  cases hp : r.phase with
  | deleting spec outcome => exact absurd hp (h spec outcome)
  | _ => rfl

/-- the answer to a deletion is not part of how the run goes on -/
theorem act_withDelete_of_deleting (setup : Setup σ)
    (delete : PodRef → σ → Except ClusterError Unit × σ) (w : World σ) {spec : PodSpec}
    {outcome : Option RunError} (hp : r.phase = .deleting spec outcome) :
    r.act (setup.withDelete delete) w = r.act setup w ∨
      ∃ w₁ w₂, r.act (setup.withDelete delete) w = some (r.goTo (.ended outcome) w.now, w₁) ∧
        r.act setup w = some (r.goTo (.ended outcome) w.now, w₂) := by
  have hturn : (setup.withDelete delete).platform.delay = setup.platform.delay := rfl
  unfold act
  simp only [hp, hturn]
  cases r.timer.turn w.now (setup.platform.delay .delete spec.ref w.state) with
  | wait => exact .inl rfl
  | ask timer => exact .inl rfl
  | go =>
    refine .inr ?_
    dsimp only
    split <;> split <;> exact ⟨_, _, rfl, rfl⟩

end Run

namespace Crew

variable {c : Crew σ} {r : Run}

theorem move_withDelete (setup : Setup σ)
    (delete : PodRef → σ → Except ClusterError Unit × σ) (hr : c.runs = [r]) (m : Move) :
    c.move (setup.withDelete delete) m = c.move setup m ∨
      ∃ r', r'.isOver = true ∧ r'.tasks = r.tasks ∧ r.streamed? = none ∧
        (c.move (setup.withDelete delete) m).runs = [r'] ∧ (c.move setup m).runs = [r'] := by
  have hget := getElem?_of_sole hr
  by_cases hm : m = .act (.run 0)
  · subst hm
    by_cases hp : ∃ spec outcome, r.phase = .deleting spec outcome
    · obtain ⟨spec, outcome, hp⟩ := hp
      obtain hsame | ⟨w₁, w₂, h₁, h₂⟩ :=
        Run.act_withDelete_of_deleting setup delete c.world hp
      · left
        simp only [move, act, hget, hsame]
      · right
        refine ⟨r.goTo (.ended outcome) c.world.now, rfl, rfl, by simp [Run.streamed?, hp], ?_, ?_⟩
        · rw [(move_run hget h₁).2, hr]
          rfl
        · rw [(move_run hget h₂).2, hr]
          rfl
    · have hsame := Run.act_withDelete_of_phase (r := r) setup delete c.world
        fun spec outcome h => hp ⟨spec, outcome, h⟩
      left
      simp only [move, act, hget, hsame]
  · left
    cases m with
    | tick => rfl
    | pass => rfl
    | act a =>
      cases a with
      | reader => rfl
      | canceller => rfl
      | logTask k id => rfl
      | run k =>
        have hk : k ≠ 0 := fun hk => hm (by rw [hk])
        have hnone : c.runs[k]? = none := by
          rw [hr, List.getElem?_eq_none]
          exact Nat.pos_of_ne_zero hk
        simp only [move, act, hnone]

theorem runs_play_withDelete (hr : c.runs = [r]) (ht : r.Tidy) (moves : List Move) :
    (c.play (setup.withDelete delete) moves).runs = (c.play setup moves).runs := by
  induction moves generalizing c r with
  | nil => rfl
  | cons m moves ih =>
    obtain hsame | ⟨r', hover, htasks, hs, h₁, h₂⟩ :=
      move_withDelete setup delete hr m
    · rw [play_cons, play_cons, hsame]
      obtain ⟨hr', -⟩ | ⟨e, hvalid, rfl, -, hr', -⟩ := move_view_of_sole hr m
      · exact ih hr' ht
      · exact ih hr' (ht.event hvalid).1
    · -- the answers may leave two different worlds behind, but no step of the run follows
      have hnil : r'.tasks = [] := htasks.trans (ht.tasks_eq_nil hs)
      rw [play_cons, play_cons, runs_play_of_isOver h₁ hover hnil,
        runs_play_of_isOver h₂ hover hnil]

/-! ## a run on its own -/

/-- **The calls of a run are the life of one pod**, under every schedule: those of a run that is
over are such a life, and those of one that is not begin one.  It makes no more steps than its waits
take, and as long as it is not over it is never stuck.  What the deletion of the pod comes to does
not change what becomes of the run. -/
theorem lifecycle_of_play (setup : Setup σ) (step : StepDefinition) (world : World σ)
    (moves : List Move) :
    let c := (ofRuns [{ step }] world none).play setup moves
    (∃ r calls, c.runs = [r] ∧ c.world.calls = calls.reverse ++ world.calls ∧
      (∃ rest last, Lifecycle (setup.build step) (calls ++ rest) last ∧
        (r.isOver = true → rest = [] ∧ last = r.phase)) ∧
      Run.Frugal setup ((ofRuns [{ step }] world none).events setup 0 moves) r ∧
      (0 < world.channel.room → r.isOver = false →
        (∃ a, (c.act setup a).isSome = true) ∨ c.tick.isSome = true)) ∧
    ∀ delete : PodRef → σ → Except ClusterError Unit × σ,
      ((ofRuns [{ step }] world none).play (setup.withDelete delete) moves).runs = c.runs := by
  intro c
  have hbegin := Run.conforms_begin setup step
  constructor
  · obtain ⟨r, calls, hr, hconf, hcalls⟩ :=
      conforms_play (c := ofRuns [{ step }] world none) setup step moves rfl hbegin rfl
    have hget : c.runs[0]? = some r := getElem?_of_sole hr
    have hbegun : (ofRuns [{ step }] world none).runs[0]? = some ({ step } : Run) := rfl
    obtain ⟨s, hs, hfrugal⟩ := frugal_of_play setup hbegun moves
    obtain rfl : r = s := Option.some.inj (hget.symm.trans hs)
    exact ⟨r, calls, hr, hcalls, hconf.lifecycle, hfrugal,
      fun hroom => able_of_room (by rw [room_play]; exact hroom) hget⟩
  · intro delete
    exact runs_play_withDelete rfl hbegin.tidy moves

/-- a pod that is slow to create and cannot be deleted: the run can go on while it is created -/
theorem lifecycle_of_failed_delete :
    let spec : PodSpec :=
      { name := "p", namespaceName := "ns", containers := [{ name := "a", image := "i" }] }
    let platform : Platform Unit :=
      { create := fun _ _ => (.ok none, ())
        fetch := fun pod _ => (.error (.podNotFound pod), ())
        openLogs := fun _ _ _ => (.panicked, ())
        delete := fun pod _ => (.error (.podNotFound pod), ())
        delay := fun call _ _ => if call = .create then 3 else 0 }
    let setup : Setup Unit := ⟨platform, {}, fun _ => .spec spec⟩
    let step : StepDefinition := { name := "s", image := "i" }
    let first := ofRuns [{ step }] { state := () } none
    let run (times : Nat) : List Move := List.replicate times (.act (.run 0))
    let before := run 2
    let moves := run 2 ++ .tick :: run 8
    ((∃ a, ((first.play setup before).act setup a).isSome = true) ∨
      (first.play setup before).tick.isSome = true) ∧
    ∃ r calls, (first.play setup moves).runs = [r] ∧ Lifecycle (.spec spec) calls r.phase ∧
      (first.play (setup.withDelete fun _ _ => (.ok (), ())) moves).runs = [r] ∧
      calls.map (·.event) = [.created true, .fetched false, .deleted false] := by
  intro spec platform setup step first run before moves
  have hbegun : (first.play setup before).runs.all (!·.isOver) = true := by decide +kernel
  have hover : (first.play setup moves).runs.all (·.isOver) = true := by decide +kernel
  have hevents : (first.play setup moves).world.calls.map (·.event) =
      [.deleted false, .fetched false, .created true] := by decide +kernel
  -- from here on it does not matter which moves these are
  clear_value before moves
  obtain ⟨⟨r, -, hr, -, -, -, hable⟩, -⟩ := lifecycle_of_play setup step { state := () } before
  rw [hr, List.all_cons, List.all_nil, Bool.and_true, Bool.not_eq_true'] at hbegun
  obtain ⟨⟨r', calls, hr', hcalls, ⟨rest, final, hlife, hend⟩, -⟩, hdelete⟩ :=
    lifecycle_of_play setup step { state := () } moves
  rw [hr', List.all_cons, List.all_nil, Bool.and_true] at hover
  obtain ⟨rfl, rfl⟩ := hend hover
  rw [List.append_nil] at hlife
  refine ⟨hable Nat.one_pos hbegun, r', calls, hr', hlife, (hdelete _).trans hr', ?_⟩
  have hreverse : (first.play setup moves).world.calls = calls.reverse ++ [] := hcalls
  rw [hreverse, List.append_nil, List.map_reverse] at hevents
  exact List.reverse_eq_iff.1 hevents

end Crew

end StepRunner
