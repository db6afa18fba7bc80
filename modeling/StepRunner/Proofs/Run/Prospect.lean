import StepRunner.Proofs.Run.Company

/-!
# What log tasks have still to do

The log stream of a container is what the platform says when it is opened, and nothing that its run
does before the deletion of the pod changes that.  So it is settled from the start what a log task
will have called, sent and failed with in the end, whenever its steps are made.

* `Prospect`, `LogTask.prospect`   what a log task has still to call, to send and to fail with
* `prospect_of_transition`         what it does in a step it has not to do any more
* `perm_of_advance`, `perm_of_join`, `perm_of_fork`
                                   what was done and what is still to do stay the same together
* `Transition.openLogs_eq`         what a log stream comes to while a run streams logs
-/

namespace StepRunner

variable {σ : Type}

/-! ## one log task -/

/-- what a log task has still to call, to send and to fail with -/
structure Prospect where
  calls : List (PodRef × CallEvent) := []
  lines : List LogLine := []
  failures : List RunError := []

/-- the lines of them that are about a container -/
def Prospect.about (container : String) (p : Prospect) : List LogLine :=
  p.lines.filter (·.container = container)

namespace LogTask

/-- the failure that a scanner ends with, if it does -/
def scanFailures (t : LogTask) (scanner : Log.Scanner) : List RunError :=
  (scanner.ending.failure.map
    (.readLogStream t.pod.text t.container scanner.ending.linesRead)).toList

/-- the failures that come of an opening -/
def openFailures (options : Text.SanitizeOptions) (t : LogTask) : LogOpening → List RunError
  | .stream s => t.scanFailures (.ofReads options s.reads)
  | .failed e => [.openLogStream t.pod.text t.container e]
  | .panicked => [Run.panicError t]

/-- what a log task has still to do, as long as its stream is what it is in `state` -/
def prospect (platform : Platform σ) (options : Text.SanitizeOptions) (state : σ) (t : LogTask) :
    Prospect :=
  match t.phase with
  | .opening _ =>
    let opening := (platform.openLogs t.pod t.container state).1
    { calls := [(t.pod, .opened t.container)]
      lines := (opening.lines options).map (.output t.step t.container)
      failures := t.openFailures options opening }
  | .forwarding scanner _ line =>
    { lines := (line.toList ++ scanner.lines).map (.output t.step t.container)
      failures := t.scanFailures scanner }
  | .ended => {}
  | .panicked => { failures := [Run.panicError t] }

variable {platform : Platform σ} {options : Text.SanitizeOptions} {state state' : σ}
  {t u : LogTask} {w : World σ} {result : Result σ}

theorem prospect_congr
    (h : (platform.openLogs t.pod t.container state).1 =
      (platform.openLogs t.pod t.container state').1) :
    t.prospect platform options state = t.prospect platform options state' := by
  unfold prospect
  rw [h]

theorem prospect_like (h : t.Like u) :
    t.prospect platform options state = u.prospect platform options state := by
  obtain ⟨id, pod, step, container, phase⟩ := t
  obtain ⟨id', pod', step', container', phase'⟩ := u
  obtain ⟨rfl, rfl, rfl, rfl, hphase⟩ := h
  cases hphase <;> rfl

theorem flatMap_prospect_like {α : Type} {ts us : List LogTask} (h : List.Forall₂ Like ts us)
    (f : Prospect → List α) :
    (ts.flatMap fun t => f (t.prospect platform options state)) =
      us.flatMap fun t => f (t.prospect platform options state) := by
  induction h with
  | nil => rfl
  | cons htu _ ih => rw [List.flatMap_cons, List.flatMap_cons, ih, prospect_like htu]

theorem flatMap_calls {ts : List LogTask} (h : ∀ t ∈ ts, t.isOpening = true) :
    (ts.flatMap fun t => (t.prospect platform options state).calls) =
      ts.map fun t => (t.pod, .opened t.container) := by
  induction ts with
  | nil => rfl
  | cons t ts ih =>
    have hcalls : (t.prospect platform options state).calls = [(t.pod, .opened t.container)] := by
      have hopening := h t List.mem_cons_self
      unfold isOpening at hopening
      unfold prospect
      split at hopening <;> simp_all
    rw [List.flatMap_cons, hcalls, ih fun u hu => h u (List.mem_cons_of_mem t hu)]
    rfl

theorem eq_of_mem_calls {c : PodRef × CallEvent}
    (h : c ∈ (t.prospect platform options state).calls) : c = (t.pod, .opened t.container) := by
  unfold prospect at h
  split at h
  next => exact List.mem_singleton.1 h
  next => cases h
  next => cases h
  next => cases h

theorem of_mem_lines {line : LogLine} (h : line ∈ (t.prospect platform options state).lines) :
    line.step = t.step ∧ line.container = t.container := by
  unfold prospect at h
  split at h
  next =>
    obtain ⟨content, -, rfl⟩ := List.mem_map.1 h
    exact ⟨rfl, rfl⟩
  next =>
    obtain ⟨content, -, rfl⟩ := List.mem_map.1 h
    exact ⟨rfl, rfl⟩
  next => cases h
  next => cases h

theorem prospect_of_isOver (h : t.isOver = true) :
    t.prospect platform options state =
      { failures := if t.isPanicked then [Run.panicError t] else [] } := by
  unfold isOver at h
  unfold prospect isPanicked
  split at h <;> simp_all

theorem about_eq_nil {container : String} (h : t.container ≠ container) :
    (t.prospect platform options state).about container = [] := by
  rw [Prospect.about, List.filter_eq_nil_iff]
  intro line hline
  simpa [(of_mem_lines hline).2] using h

theorem flatMap_about_eq_nil {container : String} {ts : List LogTask}
    (h : ts.countP (·.container = container) = 0) :
    (ts.flatMap fun t => (t.prospect platform options state).about container) = [] := by
  refine List.flatMap_eq_nil_iff.2 fun t ht => about_eq_nil ?_
  simpa using List.countP_eq_zero.1 h t ht

theorem prospect_of_opening {timer : Timer} (hp : t.phase = .opening timer) {opening : LogOpening}
    (ho : (platform.openLogs t.pod t.container state).1 = opening) :
    t.prospect platform options state =
      { calls := [(t.pod, .opened t.container)]
        lines := (opening.lines options).map (.output t.step t.container)
        failures := t.openFailures options opening } := by
  rw [prospect, hp, ← ho]

theorem prospect_of_forwarding {scanner : Log.Scanner} {times : List Nat} {line : Option String}
    (hp : t.phase = .forwarding scanner times line) :
    t.prospect platform options state =
      { lines := (line.toList ++ scanner.lines).map (.output t.step t.container)
        failures := t.scanFailures scanner } := by
  rw [prospect, hp]

/-- What a log task fails with in a step it has not to fail with any more.  Without a reader it
stops at the next line, so that it misses a failure that was still to be read. -/
theorem failures_of_transition (ht : Transition platform options t w result)
    (hread : w.channel.isOpen = true ∨ ∀ scanner times line,
      t.phase = .forwarding scanner times line → scanner.ending.failure = none)
    (hsame : (platform.openLogs t.pod t.container w.state).1 =
      (platform.openLogs t.pod t.container state).1) :
    (t.prospect platform options state).failures =
      result.failure.toList ++ (result.task.prospect platform options state).failures := by
  cases ht with
  | asked hp =>
    rw [prospect_of_opening hp rfl]
    rfl
  | openPanicked hp _ ha | openRefused hp _ ha | opened hp _ ha =>
    rw [prospect_of_opening hp (hsame.symm.trans (congrArg Prod.fst ha))]
    rfl
  | read hp _ ha =>
    rw [prospect_of_forwarding hp, scanFailures, Log.Scanner.ending_of_advance ha]
    rfl
  | @closed scanner scanner' times warnings hp _ ha =>
    obtain ⟨htask, -, -⟩ := close_task t scanner' (w.warn warnings)
    rw [htask, prospect_of_forwarding hp, scanFailures, Log.Scanner.ending_of_no_advance ha,
      failure_close]
    exact (List.append_nil _).symm
  | stopped hp hclosed =>
    obtain hopen | hread := hread
    · rw [hopen] at hclosed
      cases hclosed
    · rw [prospect_of_forwarding hp, scanFailures, hread _ _ _ hp]
      rfl
  | sent hp =>
    rw [prospect_of_forwarding hp]
    rfl

/-- **What a log task does in a step it has not to do any more.** -/
theorem prospect_of_transition (ht : Transition platform options t w result)
    (hopen : w.channel.isOpen = true)
    (hsame : (platform.openLogs t.pod t.container w.state).1 =
      (platform.openLogs t.pod t.container state).1) :
    ∃ (events : List CallEvent) (lines : List LogLine),
      result.world.calls = (events.map (⟨w.now, t.pod, ·⟩)).reverse ++ w.calls ∧
      result.world.channel.sent = lines.reverse ++ w.channel.sent ∧
      (t.prospect platform options state).calls =
        events.map (t.pod, ·) ++ (result.task.prospect platform options state).calls ∧
      (t.prospect platform options state).lines =
        lines ++ (result.task.prospect platform options state).lines ∧
      (t.prospect platform options state).failures =
        result.failure.toList ++ (result.task.prospect platform options state).failures := by
  have hfailures := failures_of_transition ht (.inl hopen) hsame
  cases ht with
  | @asked timer timer' hp =>
    refine ⟨[], [], rfl, rfl, ?_, ?_, hfailures⟩
    all_goals rw [prospect_of_opening hp rfl]; rfl
  | openPanicked hp _ ha | openRefused hp _ ha | opened hp _ ha =>
    refine ⟨[.opened t.container], [], rfl, rfl, ?_, ?_, hfailures⟩
    all_goals rw [prospect_of_opening hp (hsame.symm.trans (congrArg Prod.fst ha))]; rfl
  | @read scanner scanner' times warnings hp _ ha =>
    refine ⟨[], [], rfl, rfl, ?_, ?_, hfailures⟩
    · rw [prospect_of_forwarding hp]
      rfl
    · rw [prospect_of_forwarding hp, Log.Scanner.lines_of_advance ha]
      rfl
  | @closed scanner scanner' times warnings hp _ ha =>
    obtain ⟨htask, hcalls, hchannel⟩ := close_task t scanner' (w.warn warnings)
    refine ⟨[], [], hcalls, congrArg Channel.sent hchannel, ?_, ?_, hfailures⟩
    · rw [htask, prospect_of_forwarding hp]
      rfl
    · rw [htask, prospect_of_forwarding hp, Log.Scanner.lines_of_no_advance ha]
      rfl
  | stopped _ hclosed =>
    rw [hopen] at hclosed
    cases hclosed
  | @sent scanner times line hp =>
    refine ⟨[], [.output t.step t.container line], rfl, ?_, ?_, ?_, hfailures⟩
    · exact congrArg Channel.sent (if_pos hopen)
    all_goals rw [prospect_of_forwarding hp]; rfl

end LogTask

/-! ## all log tasks of a run -/

section

variable {α : Type} {made whole : List α} {f f' : LogTask → List α}
  {tasks front back : List LogTask} {t t' : LogTask}

/-- as a log task makes a step, it has done what it has not to do any more -/
theorem perm_of_advance (h : (made ++ (front ++ t :: back).flatMap f).Perm whole) {done : List α}
    (ht : f t = done ++ f t') : (made ++ done ++ (front ++ t' :: back).flatMap f).Perm whole := by
  refine List.Perm.trans ?_ h
  simp only [List.flatMap_append, List.flatMap_cons, ht, List.append_assoc]
  refine List.Perm.append_left made ?_
  rw [← List.append_assoc, ← List.append_assoc (front.flatMap f)]
  exact List.perm_append_comm.append_right _

/-- as a log task is joined, it does what is left -/
theorem perm_of_join (h : (made ++ (front ++ t :: back).flatMap f).Perm whole) :
    (made ++ f t ++ (front ++ back).flatMap f).Perm whole := by
  refine List.Perm.trans ?_ h
  simp only [List.flatMap_append, List.flatMap_cons, List.append_assoc]
  refine List.Perm.append_left made ?_
  rw [← List.append_assoc, ← List.append_assoc (front.flatMap f)]
  exact List.perm_append_comm.append_right _

theorem eq_of_advance (h : made ++ (front ++ t :: back).flatMap f = whole) {done : List α}
    (ht : f t = done ++ f t') (hfirst : done ≠ [] → front.flatMap f = []) :
    made ++ done ++ (front ++ t' :: back).flatMap f = whole := by
  rw [← h, List.flatMap_append, List.flatMap_append, List.flatMap_cons, List.flatMap_cons, ht]
  by_cases hdone : done = []
  · simp [hdone]
  · simp [hfirst hdone]

/-- as log tasks are started, what they are to do is added -/
theorem perm_of_fork (h : (made ++ tasks.flatMap f).Perm whole) (hf : ∀ t ∈ tasks, f' t = f t)
    (done : List α) (new : List LogTask) :
    (made ++ done ++ (tasks ++ new).flatMap f').Perm (whole ++ done ++ new.flatMap f') := by
  rw [List.flatMap_append, List.flatMap_congr hf, ← List.append_assoc]
  refine List.Perm.append_right _ ?_
  refine List.Perm.trans ?_ (h.append_right done)
  rw [List.append_assoc, List.append_assoc]
  exact List.perm_append_comm.append_left made

theorem eq_of_fork (h : made ++ tasks.flatMap f = whole) (hf : ∀ t ∈ tasks, f' t = f t)
    {done : List α} (hlast : done ≠ [] → tasks.flatMap f = []) (new : List LogTask) :
    made ++ done ++ (tasks ++ new).flatMap f' = whole ++ done ++ new.flatMap f' := by
  rw [← h, List.flatMap_append, List.flatMap_congr hf]
  by_cases hdone : done = []
  · simp [hdone]
  · simp [hlast hdone]

end

theorem Run.exists_split_of_joinable? {tasks rest : List LogTask} {t : LogTask}
    (h : joinable? tasks = some (t, rest)) :
    ∃ front back, tasks = front ++ t :: back ∧ rest = front ++ back := by
  induction tasks generalizing rest with
  | nil => cases h
  | cons u tasks ih =>
    unfold joinable? at h
    split at h
    next =>
      cases h
      exact ⟨[], tasks, rfl, rfl⟩
    next =>
      obtain ⟨⟨v, others⟩, hjoin, heq⟩ := Option.map_eq_some_iff.1 h
      cases heq
      obtain ⟨front, back, rfl, rfl⟩ := ih hjoin
      exact ⟨u :: front, back, rfl, rfl⟩

theorem Run.new_of_act {setup : Setup σ} {e : RunEvent σ}
    (hact : e.before.act setup e.seen = some (e.after, e.left)) {new : List LogTask}
    (hnew : e.after.tasks = e.before.tasks ++ new) :
    (∀ t ∈ new, t.phase = .opening ⟨e.seen.now, false⟩) ∧
      ∀ line ∈ e.sent, ∃ t ∈ new, t.container = line.container := by
  obtain ⟨started, hforks⟩ := forks_of_transition (transition_of_act hact)
  have hstarted : new = started := by
    obtain htasks | ⟨rfl, t, hj⟩ | ⟨rfl, htasks, -⟩ := hforks.tasks
    · exact List.append_cancel_left (hnew.symm.trans htasks)
    · -- a log task that is joined is gone
      obtain ⟨front, back, hsplit, hrest⟩ := exists_split_of_joinable? hj
      have hlength := congrArg List.length (hnew.symm.trans hrest)
      rw [hsplit] at hlength
      simp only [List.length_append, List.length_cons] at hlength
      omega
    · exact (List.append_eq_nil_iff.1 (hnew.symm.trans htasks)).2
  subst hstarted
  refine ⟨fun t ht => ?_, fun line hline => ?_⟩
  · obtain ⟨k, hk⟩ := List.getElem?_of_mem ht
    exact (hforks.begun k t hk).2.2
  · have hforked : line.container ∈ new.map (·.container) := by
      rw [hforks.forked]
      exact List.mem_append_left _ (hforks.sent line hline).1
    obtain ⟨t, ht, hcontainer⟩ := List.mem_map.1 hforked
    exact ⟨t, ht, hcontainer⟩

theorem Run.Staff.exists_split {setup : Setup σ} {past : List (RunEvent σ)} {all : List LogTask}
    {r : Run} (h : r.Staff setup past all) {t : LogTask} (ht : t ∈ r.tasks) :
    ∃ front back, r.tasks = front ++ t :: back ∧
      ∀ u : LogTask, u.id = t.id → putTask u r.tasks = front ++ u :: back := by
  have hnodup : (r.tasks.map (·.id)).Nodup := by
    have hall : all.map (·.id) = List.range all.length := by
      refine List.ext_getElem (by simp) fun k hk _ => ?_
      rw [List.length_map] at hk
      simpa using h.numbered k all[k] (List.getElem?_eq_getElem hk)
    refine (h.live.map _).nodup ?_
    rw [hall]
    exact List.nodup_range
  obtain ⟨front, back, hsplit⟩ := List.append_of_mem ht
  refine ⟨front, back, hsplit, fun u hu => ?_⟩
  rw [hsplit, List.map_append, List.map_cons, List.nodup_append] at hnodup
  obtain ⟨-, hcons, hdisjoint⟩ := hnodup
  have hkeep (tasks : List LogTask) (hne : ∀ v ∈ tasks, v.id ≠ u.id) :
      tasks.map (fun v => if v.id = u.id then u else v) = tasks := by
    refine (List.map_congr_left fun v hv => ?_).trans (List.map_id' tasks)
    exact if_neg (hne v hv)
  have hfront := hkeep front fun v hv =>
    hu ▸ hdisjoint v.id (List.mem_map_of_mem hv) t.id List.mem_cons_self
  have hback := hkeep back fun v hv heq =>
    (List.nodup_cons.1 hcons).1 (hu ▸ heq ▸ List.mem_map_of_mem hv)
  rw [hsplit, putTask, List.map_append, List.map_cons, hfront, hback, if_pos hu.symm]

theorem Run.Grown.exists_split {setup : Setup σ} {step : StepDefinition} {r : Run}
    (h : r.Grown setup step) {t : LogTask} (ht : t ∈ r.tasks) :
    ∃ front back, r.tasks = front ++ t :: back ∧
      ∀ u : LogTask, u.id = t.id → putTask u r.tasks = front ++ u :: back := by
  obtain ⟨-, past, all, hstaff, -⟩ := h
  exact hstaff.exists_split ht

/-! ## what a log stream comes to -/

namespace Run

variable {setup : Setup σ} {r r' : Run} {w w' : World σ}

/-- what a log stream comes to, and how long its opening takes, stay the same while a run streams
logs -/
theorem Transition.openLogs_eq (hsteady : setup.platform.Steady)
    (ht : Transition setup r w r' w') (hs : r.streamed? ≠ none) (pod : PodRef)
    (container : String) :
    (setup.platform.openLogs pod container w'.state).1 =
        (setup.platform.openLogs pod container w.state).1 ∧
      setup.platform.delay .openLogs pod w'.state = setup.platform.delay .openLogs pod w.state := by
  cases ht with
  | cancelledEarly | buildPanicked | buildRefused | built | asked | cancelled | announced
  | joinedPanicked | joined => exact ⟨rfl, rfl⟩
  | streamingLook | streamingAgain | finishingLook | finishingAgain =>
    exact ⟨hsteady.answer .., hsteady.delay ..⟩
  | joinedAll => split <;> exact ⟨rfl, rfl⟩
  | createRefused hp | created hp | deleteRefused hp | deleted hp => simp [streamed?, hp] at hs

end Run

end StepRunner
