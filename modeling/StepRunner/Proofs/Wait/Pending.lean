import Mathlib.Data.List.Induction
import StepRunner.Proofs.Wait.Looks
import StepRunner.Proofs.Wait.Scan

/-!
# What is pending when a pod has come to its end

In general what a watch knows is older than the last snapshot, as a scan stops at the container that
it hands out.  A wait that says that the pod has come to its end has read its last snapshot to the
end: what is pending then is what this snapshot shows away from the goal, as it shows it.  All others
of its containers were handed out, and have not been seen away from the goal since.

* `exists_rise`          a container that is there goes back to a rising edge
* `pending_absorb`       what is pending after a look that hands nothing out
* `exists_turn_of_log`   the wait that has recorded an observation
* `handed_of_known`      what is known to be there was handed out, and is there since then
* `pending_of_waits`     what a wait says of a pod that has come to its end
-/

namespace StepRunner

theorem PodPhase.isTerminal_iff {phase : PodPhase} :
    phase.isTerminal = true ↔ phase = .succeeded ∨ phase = .failed := by
  cases phase <;> simp [isTerminal]

/-- An observation that meets the goal goes back to a rising edge of the same container, and all of
that container in between do, too. -/
theorem exists_rise {goal : Goal} {past : List Observation} {name : String} {o : Observation}
    (ho : latest? past name = some o) (hm : goal.met o = true) :
    ∃ before edge after, past = before ++ edge :: after ∧ edge.name = name ∧
      Rises goal before edge ∧ ∀ x ∈ after, x.name = name → goal.met x = true := by
  induction past using List.reverseRecOn generalizing o with
  | nil => cases ho
  | append_singleton past x ih =>
    rw [latest?_concat] at ho
    -- where an edge of the container was found before `x`, it is still the one
    have hearlier (hlast : ∃ old, latest? past name = some old ∧ goal.met old = true)
        (hx : x.name = name → goal.met x = true) :
        ∃ before edge after, past ++ [x] = before ++ edge :: after ∧ edge.name = name ∧
          Rises goal before edge ∧ ∀ y ∈ after, y.name = name → goal.met y = true := by
      obtain ⟨old, hold, hmet⟩ := hlast
      obtain ⟨before, edge, after, rfl, hname, hrises, hafter⟩ := ih hold hmet
      refine ⟨before, edge, after ++ [x], by simp, hname, hrises, fun y hy => ?_⟩
      obtain hy | hy := List.mem_append.1 hy
      · exact hafter y hy
      · rw [List.mem_singleton.1 hy]
        exact hx
    by_cases hname : name = x.name
    · rw [if_pos hname] at ho
      obtain rfl := Option.some.inj ho
      by_cases hlast : ∃ old, latest? past name = some old ∧ goal.met old = true
      · exact hearlier hlast fun _ => hm
      · refine ⟨past, x, [], rfl, hname.symm, ⟨hm, fun old hold => ?_⟩, by simp⟩
        rw [← hname] at hold
        cases hmet : goal.met old with
        | false => rfl
        | true => exact absurd ⟨old, hold, hmet⟩ hlast
    · rw [if_neg hname] at ho
      exact hearlier ⟨o, ho, hm⟩ fun heq => absurd heq.symm hname

namespace Watch

variable {σ : Type}

/-! ## a snapshot read to its end -/

/-- what is pending after a look that hands nothing out is what the snapshot shows away from the
goal, as it shows it -/
theorem pending_absorb {w : Watch} {s : PodSnapshot} (h : (w.absorb s).2 = none)
    (hn : s.names.Nodup) :
    (w.absorb s).1.pending = s.observations.filter fun o => !w.goal.met o := by
  have hknown : ∀ o ∈ s.observations, (w.absorb s).1.known.get? o.name = some o := by
    intro o ho
    exact get?_absorb_of_latest? h (latest?_of_nodup hn ho)
  show ((s.observations.map (·.name)).filterMap (w.absorb s).1.known.get?).filter _ = _
  rw [List.filterMap_map]
  congr 1
  show s.observations.filterMap (fun o => (w.absorb s).1.known.get? o.name) = _
  rw [List.filterMap_congr (g := some) hknown, List.filterMap_some]

theorem Ends.of_finished {w after : Watch} {polls n : Nat} {pod : String} {phase : PodPhase}
    {goal : Goal} {answer : Except ClusterError PodSnapshot}
    (h : w.Ends polls answer after (.error (.podFinished pod phase goal n))) :
    ∃ s, answer = .ok s ∧ after = (w.absorb s).1 ∧ (w.absorb s).2 = none ∧
      s.phase.isTerminal = true ∧ pod = w.pod.text ∧ phase = s.phase ∧ goal = w.goal ∧
      n = after.pending.length := by
  cases h with
  | podFinished hs hr hp => exact ⟨_, rfl, rfl, hs, hp, rfl, rfl, rfl, rfl⟩

/-! ## what was recorded, and by which wait -/

theorem exists_turn_of_log {turns : List Turn} {before after : List Observation} {o : Observation}
    (h : log turns = before ++ o :: after) :
    ∃ earlier turn later front back, turns = earlier ++ turn :: later ∧
      turn.recorded = front ++ o :: back ∧ before = log earlier ++ front ∧
      after = back ++ log later := by
  induction turns generalizing before with
  | nil => simp [log] at h
  | cons turn turns ih =>
    have hlog : turn.recorded ++ log turns = before ++ o :: after := h
    -- the observation was recorded by a later wait, where the first one has recorded `more` at most
    have hlater {more : List Observation} (hmore : log turns = more ++ o :: after)
        (hbefore : before = turn.recorded ++ more) :
        ∃ earlier turn' later front back, turn :: turns = earlier ++ turn' :: later ∧
          turn'.recorded = front ++ o :: back ∧ before = log earlier ++ front ∧
          after = back ++ log later := by
      obtain ⟨earlier, turn', later, front, back, rfl, hrecorded, rfl, hafter⟩ := ih hmore
      refine ⟨turn :: earlier, turn', later, front, back, rfl, hrecorded, ?_, hafter⟩
      rw [hbefore, ← List.append_assoc]
      rfl
    obtain ⟨more, hbefore, hmore⟩ | ⟨more, hrecorded, hmore⟩ := List.append_eq_append_iff.1 hlog
    · exact hlater hmore hbefore
    · cases more with
      | nil =>
        have hrest : log turns = [] ++ o :: after := hmore.symm
        exact hlater hrest (by rw [hrecorded, List.append_nil, List.append_nil])
      | cons x more =>
        obtain ⟨rfl, rfl⟩ := List.cons.inj hmore
        exact ⟨[], turn, turns, before, more, rfl, hrecorded, rfl, rfl⟩

theorem turns_concat (platform : Platform σ) (interval : Nat) (w : Watch) (worlds : List (World σ))
    (world : World σ) :
    w.turns platform interval (worlds ++ [world]) = w.turns platform interval worlds ++
      (w.afterWaits platform interval worlds).turns platform interval [world] := by
  induction worlds generalizing w with
  | nil => rfl
  | cons first worlds ih => exact congrArg (_ :: ·) (ih (w.await platform interval first).2.1)

theorem log_append (turns turns' : List Turn) : log (turns ++ turns') = log turns ++ log turns' :=
  List.flatMap_append

theorem Knows.afterWaits {goal : Goal} {past : List Observation} {w : Watch}
    (platform : Platform σ) (interval : Nat) (h : w.Knows goal past) (worlds : List (World σ)) :
    (w.afterWaits platform interval worlds).Knows goal
      (past ++ log (w.turns platform interval worlds)) := by
  induction worlds generalizing w past with
  | nil =>
    rw [Watch.turns, log, List.flatMap_nil, List.append_nil]
    exact h
  | cons world worlds ih =>
    have hrest := ih (h.await platform interval world).1
    rw [List.append_assoc] at hrest
    exact hrest

/-- **What is known to be there was handed out**, and nothing else was recorded of it since. -/
theorem handed_of_known (platform : Platform σ) (interval : Nat) (pod : PodRef) (goal : Goal)
    (limit : Nat) (worlds : List (World σ)) {name : String} {o : Observation}
    (ho : ((begin pod goal limit).afterWaits platform interval worlds).known.get? name = some o)
    (hm : goal.met o = true) :
    ∃ earlier turn later o',
      (begin pod goal limit).turns platform interval worlds = earlier ++ turn :: later ∧
      turn.outcome = .ok o' ∧ o'.name = name ∧
      ∀ x ∈ log later, x.name = name → goal.met x = true := by
  have hbegin := knows_begin pod goal limit
  have hknows := hbegin.afterWaits platform interval worlds
  rw [hknows.known, List.nil_append, get?_record_empty] at ho
  obtain ⟨before, edge, after, hcut, hname, hrises, hafter⟩ := exists_rise ho hm
  obtain ⟨earlier, turn, later, front, back, hturns, hrecorded, rfl, rfl⟩ :=
    exists_turn_of_log hcut
  obtain ⟨-, hout⟩ := hbegin.turns platform interval worlds hturns
  obtain ⟨hhanded, -⟩ := (hout.rises front edge back hrecorded).2 hrises
  refine ⟨earlier, turn, later, edge, hturns, toOption_eq_some_iff.1 hhanded, hname, fun x hx => ?_⟩
  exact hafter x (List.mem_append_right back hx)

/-! ## the end of a pod -/

theorem exists_last_of_finished {platform : Platform σ} {interval : Nat} {w : Watch}
    {world : World σ} {text : String} {phase : PodPhase} {policy : Goal} {pending : Nat}
    (h : (w.await platform interval world).1 = .error (.podFinished text phase policy pending)) :
    ∃ idle last, w.shownBy platform interval world = idle ++ [last] ∧
      (w.await platform interval world).2.1 = ((w.afterLooks idle).absorb last).1 ∧
      ((w.afterLooks idle).absorb last).2 = none ∧ last.phase.isTerminal = true ∧
      text = w.pod.text ∧ phase = last.phase ∧ policy = w.goal ∧
      pending = (w.await platform interval world).2.1.pending.length := by
  obtain hnone | ⟨_, _, _, hlimit⟩ | ⟨idle, last, hwaited⟩ := w.exists_waited platform interval world
  · cases h.symm.trans hnone
  · cases h.symm.trans hlimit
  have hends := hwaited.ends
  rw [h] at hends
  obtain ⟨s, rfl, hafter, hnone, hterminal, rfl, rfl, rfl, hpending⟩ := hends.of_finished
  obtain ⟨hpod, hgoal, -⟩ := w.afterLooks_eq idle
  exact ⟨idle, s, hwaited.shows, hafter, hnone, hterminal, by rw [hpod], rfl, hgoal, hpending⟩

/-- **What a wait says of a pod that has come to its end** is what its last snapshot shows, whatever
waits there were before and whatever they were shown.  The snapshot is of a pod that has come to its
end, and names its phase.  Where its containers have names of their own, those of them that it shows
away from the goal are pending, as it shows them, init containers first; all others were returned by
some wait before, and have not been seen away from the goal since. -/
theorem pending_of_waits (platform : Platform σ) (interval : Nat) (pod : PodRef) (goal : Goal)
    (limit : Nat) (worlds : List (World σ)) (world : World σ) {text : String} {phase : PodPhase}
    {policy : Goal} {pending : Nat} :
    let first := begin pod goal limit
    let w := first.afterWaits platform interval worlds
    let result := w.await platform interval world
    let after := result.2.1
    result.1 = .error (.podFinished text phase policy pending) →
      ∃ idle last, w.shownBy platform interval world = idle ++ [last] ∧
        (last.phase = .succeeded ∨ last.phase = .failed) ∧
        phase = last.phase ∧ after.phase = last.phase ∧ text = pod.text ∧ policy = goal ∧
        pending = after.pending.length ∧
        (last.names.Nodup →
          after.pending = last.observations.filter (fun o => !goal.met o) ∧
          ∀ o ∈ last.observations, goal.met o = true →
            ∃ earlier turn later o',
              first.turns platform interval worlds = earlier ++ turn :: later ∧
              turn.outcome = .ok o' ∧ o'.name = o.name ∧
              ∀ x ∈ log later ++ w.recordedBy platform interval world,
                x.name = o.name → goal.met x = true) := by
  intro first w result after hresult
  obtain ⟨idle, last, hshown, hafter, hnone, hterminal, htext, hphase, hpolicy, hpending⟩ :=
    exists_last_of_finished hresult
  have hw : w.Accounts pod _ _ := (accounts_begin pod goal limit).afterWaits worlds
  have hgoal : w.goal = goal := ((knows_begin pod goal limit).afterWaits platform interval worlds).goal
  obtain ⟨-, hidle, -⟩ := w.afterLooks_eq idle
  refine ⟨idle, last, hshown, ?_, hphase, ?_, ?_, hpolicy.trans hgoal, hpending, fun hn => ⟨?_, ?_⟩⟩
  · exact PodPhase.isTerminal_iff.1 hterminal
  · show result.2.1.phase = last.phase
    rw [hafter]
    rfl
  · rw [htext, hw.pod]
  · show result.2.1.pending = _
    rw [hafter, pending_absorb hnone hn, hidle, hgoal]
  · intro o ho hm
    have hend : first.afterWaits platform interval (worlds ++ [world]) = after :=
      List.foldl_append
    have hknown : after.known.get? o.name = some o := by
      show result.2.1.known.get? o.name = some o
      rw [hafter]
      exact get?_absorb_of_latest? hnone (latest?_of_nodup hn ho)
    rw [← hend] at hknown
    obtain ⟨earlier, turn, later, o', hturns, houtcome, hname, hlater⟩ :=
      handed_of_known platform interval pod goal limit (worlds ++ [world]) hknown hm
    have hall : first.turns platform interval worlds ++
        [⟨w.recordedBy platform interval world, result.1, after⟩] = earlier ++ turn :: later :=
      (turns_concat platform interval first worlds world).symm.trans hturns
    -- it is not the wait that has found the pod at its end, which returns no container
    obtain rfl | ⟨rest, final, rfl⟩ := List.eq_nil_or_concat' later
    · obtain ⟨-, rfl⟩ := List.append_singleton_inj.1 hall
      have hclash := hresult.symm.trans houtcome
      cases hclash
    · rw [← List.cons_append, ← List.append_assoc] at hall
      obtain ⟨hcut, rfl⟩ := List.append_singleton_inj.1 hall
      refine ⟨earlier, turn, rest, o', hcut, houtcome, hname, ?_⟩
      rw [log_append] at hlater
      simpa [log] using hlater

/-- a pod that fails while its app container, restarted since the first wait, still runs -/
theorem pending_of_failed :
    let clone := ContainerStatus.terminated "clone" 0
    let step := ContainerStatus.running "step"
    let failed : PodSnapshot :=
      { phase := .failed
        initStatuses := [clone], statuses := [{ step false with restartCount := 1 }] }
    let platform : Platform Bool :=
      { create := fun _ ended => (.ok none, ended)
        fetch := fun _ ended =>
          (.ok (if ended then failed
            else { phase := .running, initStatuses := [clone], statuses := [step true] }), ended)
        openLogs := fun _ _ ended => (.stream (.ofReads []), ended)
        delete := fun _ ended => (.ok (), ended)
        delay := fun _ _ _ => 0 }
    let first := begin ⟨"ns", "p"⟩ .done 9
    let w := first.afterWaits platform 0 [{ state := false }]
    let result := w.await platform 0 { state := true }
    let finished : Outcome → Option (PodPhase × Nat)
      | .error (.podFinished _ phase _ pending) => some (phase, pending)
      | _ => none
    finished result.1 = some (.failed, 1) ∧ result.2.1.phase = .failed ∧
      result.2.1.pending.map (fun o => (o.name, o.restartCount)) = [("step", 1)] ∧
      (∃ turn ∈ first.turns platform 0 [{ state := false }], ∃ o, turn.outcome = .ok o ∧
        o.name = "clone") := by
  intro clone step failed platform first w result finished
  have hfinished : finished result.1 = some (.failed, 1) := by decide +kernel
  obtain ⟨text, policy, hresult⟩ :
      ∃ text policy, result.1 = .error (.podFinished text .failed policy 1) := by
    dsimp only [finished] at hfinished
    split at hfinished
    next text phase policy pending h =>
      cases hfinished
      exact ⟨text, policy, h⟩
    next => cases hfinished
  obtain ⟨idle, last, hshown, -, hphase, hafter, -, -, -, hall⟩ :=
    pending_of_waits platform 0 ⟨"ns", "p"⟩ .done 9 [{ state := false }] { state := true } hresult
  have hlast : w.shownBy platform 0 { state := true } = [] ++ [failed] := by decide +kernel
  obtain ⟨rfl, rfl⟩ := List.append_singleton_inj.1 (hshown.symm.trans hlast)
  obtain ⟨hpending, hhanded⟩ := hall (by decide)
  obtain ⟨earlier, turn, later, o, hturns, ho, hname, -⟩ :=
    hhanded (.of {} .init clone) (by decide) (by decide)
  refine ⟨hfinished, hafter, ?_, turn, ?_, o, ho, hname⟩
  · rw [hpending]
    decide +kernel
  · rw [hturns]
    exact List.mem_append_right earlier List.mem_cons_self

end Watch

end StepRunner
