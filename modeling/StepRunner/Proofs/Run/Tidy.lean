import StepRunner.Proofs.Run.Schedule

/-!
# A run and its pod

Which pod a run has in each phase, and what its log tasks have to do with it: they are there only
while logs are streamed, and they are on this pod.

* `Run.streamed?`            the pod whose logs are being streamed
* `Run.owned?`               the pod that a run has created and not deleted yet
* `afterStreaming_spec`, `afterNotice_spec`, `afterJoining_spec`, `afterFinishing_spec`
                             where a run goes from there, and what it leaves as it is
* `LogTask.Transition.calls` the calls of a log task
* `Run.Tidy`                 a run of the whole of a step, with its log tasks
* `Tidy.event`               every step leaves it so
-/

namespace StepRunner

variable {σ : Type}

/-! ## the pod -/

namespace Run

variable {setup : Setup σ} {r r' : Run} {w w' : World σ}

def streamed? (r : Run) : Option PodSpec :=
  match r.phase with
  | .streaming spec _ | .announcing spec .. | .joining spec _ => some spec
  | _ => none

def owned? (r : Run) : Option PodSpec :=
  match r.phase with
  | .streaming spec _ | .announcing spec .. | .joining spec _ | .finishing spec _
  | .deleting spec _ => some spec
  | _ => none

theorem owned?_of_streamed? {spec : PodSpec} (h : r.streamed? = some spec) :
    r.owned? = some spec := by
  unfold streamed? at h
  unfold owned?
  split at h <;> simp_all

theorem owned?_of_inHand? {spec : PodSpec} (h : r.inHand? = some spec) : r.owned? = some spec := by
  unfold inHand? at h
  unfold owned?
  split at h <;> simp_all

/-! ## where a run goes -/

theorem spawnLate_eq (pod : PodRef) (now : Nat) (os : List Observation) (streamed : List String)
    (r : Run) :
    ∃ more started, spawnLate pod now streamed os r = { r with tasks := r.tasks ++ more, started } ∧
      ∀ t ∈ more, t.pod = pod := by
  induction os generalizing streamed r with
  | nil => exact ⟨[], r.started, by simp [spawnLate], by simp⟩
  | cons o os ih =>
    unfold spawnLate
    split
    next => exact ih streamed r
    next =>
      obtain ⟨more, started, heq, hmore⟩ := ih (o.name :: streamed) (r.spawn pod o.name now)
      refine ⟨LogTask.begin r.started pod r.step.name o.name now :: more, started, ?_, ?_⟩
      · rw [heq]
        simp [spawn]
      · exact List.forall_mem_cons.2 ⟨rfl, hmore⟩

theorem afterStreaming_spec (r : Run) (spec : PodSpec) (s : Streaming) (now : Nat)
    (outcome : Watch.Outcome) :
    (r.afterStreaming spec s now outcome).streamed? = some spec ∧
      (r.afterStreaming spec s now outcome).step = r.step ∧
      (r.afterStreaming spec s now outcome).extent = r.extent ∧
      (r.afterStreaming spec s now outcome).report = r.report ∧
      ∃ more, (r.afterStreaming spec s now outcome).tasks = r.tasks ++ more ∧
        ∀ t ∈ more, t.pod = spec.ref := by
  unfold afterStreaming
  split
  next => exact ⟨rfl, rfl, rfl, rfl, [], (List.append_nil _).symm, by simp⟩
  next =>
    -- only here are there new log tasks: those of containers that were never seen ready
    obtain ⟨more, started, heq, hmore⟩ := spawnLate_eq spec.ref now s.watch.pending s.streamed r
    rw [heq]
    exact ⟨rfl, rfl, rfl, rfl, more, rfl, hmore⟩
  next => exact ⟨rfl, rfl, rfl, rfl, [], (List.append_nil _).symm, by simp⟩
  next => exact ⟨rfl, rfl, rfl, rfl, [], (List.append_nil _).symm, by simp⟩

theorem afterNotice_spec (r : Run) (spec : PodSpec) (s : Streaming) (container : String)
    (now : Nat) :
    (r.afterNotice spec s container now).streamed? = some spec ∧
      (r.afterNotice spec s container now).step = r.step ∧
      (r.afterNotice spec s container now).extent = r.extent ∧
      (r.afterNotice spec s container now).report = r.report ∧
      (r.afterNotice spec s container now).tasks =
        r.tasks ++ [.begin r.started spec.ref r.step.name container now] := by
  unfold afterNotice
  dsimp only
  split <;> exact ⟨rfl, rfl, rfl, rfl, rfl⟩

theorem afterJoining_spec (setup : Setup σ) (r : Run) (spec : PodSpec) (fatal : Option RunError)
    (now : Nat) (hw : r.extent = .whole) :
    (r.afterJoining setup spec fatal now).owned? = some spec ∧
      (r.afterJoining setup spec fatal now).step = r.step ∧
      (r.afterJoining setup spec fatal now).extent = r.extent ∧
      (r.afterJoining setup spec fatal now).tasks = r.tasks := by
  unfold afterJoining
  rw [hw]
  cases logError? fatal r.failures with
  | none => exact ⟨rfl, rfl, hw, rfl⟩
  | some e => exact ⟨rfl, rfl, hw, rfl⟩

theorem closeFinishing_spec (setup : Setup σ) (r : Run) (spec : PodSpec) (report : FinishedPod)
    (now : Nat) (hw : r.extent = .whole) :
    (r.closeFinishing setup spec report now).owned? = some spec ∧
      (r.closeFinishing setup spec report now).step = r.step ∧
      (r.closeFinishing setup spec report now).extent = r.extent ∧
      (r.closeFinishing setup spec report now).tasks = r.tasks := by
  unfold closeFinishing
  simp only [hw]
  exact ⟨rfl, rfl, rfl, rfl⟩

theorem afterFinishing_spec (setup : Setup σ) (r : Run) (spec : PodSpec) (f : Finishing) (now : Nat)
    (outcome : Watch.Outcome) (hw : r.extent = .whole) :
    (r.afterFinishing setup spec f now outcome).owned? = some spec ∧
      (r.afterFinishing setup spec f now outcome).step = r.step ∧
      (r.afterFinishing setup spec f now outcome).extent = r.extent ∧
      (r.afterFinishing setup spec f now outcome).tasks = r.tasks := by
  unfold afterFinishing
  split
  next =>
    dsimp only
    split
    · exact ⟨rfl, rfl, rfl, rfl⟩
    · exact closeFinishing_spec setup r spec _ now hw
  next => exact closeFinishing_spec setup r spec _ now hw
  next => exact closeFinishing_spec setup r spec _ now hw
  next =>
    rw [hw]
    exact ⟨rfl, rfl, hw, rfl⟩

end Run

/-! ## log tasks -/

namespace LogTask

variable {platform : Platform σ} {options : Text.SanitizeOptions}

theorem Transition.calls {t : LogTask} {w : World σ} {result : Result σ}
    (h : Transition platform options t w result) :
    result.task.pod = t.pod ∧ (result.world.calls = w.calls ∨
      result.world.calls = ⟨w.now, t.pod, .opened t.container⟩ :: w.calls) := by
  cases h with
  | asked | read | stopped | sent => exact ⟨rfl, .inl rfl⟩
  | openPanicked | openRefused | opened => exact ⟨rfl, .inr rfl⟩
  | closed =>
    unfold close
    split <;> exact ⟨rfl, .inl rfl⟩

end LogTask

/-! ## tidy runs -/

namespace Run

variable {setup : Setup σ} {r r' : Run} {w w' : World σ}

/-- a run of the whole of a step that has log tasks only while it streams logs, each on its pod -/
structure Tidy (r : Run) : Prop where
  whole : r.extent = .whole
  tasks : ∀ t ∈ r.tasks, ∃ spec, r.streamed? = some spec ∧ t.pod = spec.ref

theorem Tidy.tasks_eq_nil (h : r.Tidy) (hs : r.streamed? = none) : r.tasks = [] := by
  rw [List.eq_nil_iff_forall_not_mem]
  intro t ht
  obtain ⟨spec, hspec, -⟩ := h.tasks t ht
  rw [hs] at hspec
  cases hspec

theorem Tidy.tasks_of_isOver (h : r.Tidy) (ho : r.isOver = true) : r.tasks = [] := by
  refine h.tasks_eq_nil ?_
  unfold isOver at ho
  unfold streamed?
  split at ho <;> simp_all

theorem Tidy.of_nil (hw : r.extent = .whole) (ht : r.tasks = []) : r.Tidy :=
  ⟨hw, by simp [ht]⟩

theorem mem_of_joinable? {tasks rest : List LogTask} {t : LogTask}
    (h : joinable? tasks = some (t, rest)) : ∀ u ∈ rest, u ∈ tasks := by
  induction tasks generalizing rest with
  | nil => cases h
  | cons u tasks ih =>
    unfold joinable? at h
    split at h
    next =>
      cases h
      exact fun u hu => List.mem_cons_of_mem _ hu
    next =>
      rw [Option.map_eq_some_iff] at h
      obtain ⟨⟨v, others⟩, hjoin, heq⟩ := h
      cases heq
      intro x hx
      obtain rfl | hx := List.mem_cons.1 hx
      · exact List.mem_cons_self
      · exact List.mem_cons_of_mem _ (ih hjoin x hx)

theorem Tidy.transition (h : r.Tidy) (ht : Transition setup r w r' w') :
    r'.Tidy ∧ r'.step = r.step := by
  have hnil (hs : r.streamed? = none) : r.tasks = [] := h.tasks_eq_nil hs
  cases ht with
  | cancelledEarly hp | buildPanicked hp | buildRefused hp | built hp | createRefused hp
  | created hp | finishingAgain hp | deleteRefused hp | deleted hp =>
    exact ⟨.of_nil h.whole (hnil (by simp [streamed?, hp])), rfl⟩
  | asked => exact ⟨⟨h.whole, h.tasks⟩, rfl⟩
  | cancelled => exact ⟨.of_nil h.whole rfl, rfl⟩
  | @streamingLook spec s watch outcome _ hp =>
    obtain ⟨hspec, hstep, hext, -, more, htasks, hmore⟩ :=
      afterStreaming_spec r spec { s with watch } w.now outcome
    refine ⟨⟨hext.trans h.whole, fun t ht => ⟨spec, hspec, ?_⟩⟩, hstep⟩
    rw [htasks, List.mem_append] at ht
    obtain ht | ht := ht
    · obtain ⟨_, hsame, hpod⟩ := h.tasks t ht
      simp only [streamed?, hp, Option.some.injEq] at hsame
      exact hsame ▸ hpod
    · exact hmore t ht
  | streamingAgain hp =>
    refine ⟨⟨h.whole, fun t ht => ?_⟩, rfl⟩
    simpa [streamed?, hp, goToAfter] using h.tasks t ht
  | @announced spec s container hp =>
    obtain ⟨hspec, hstep, hext, -, htasks⟩ := afterNotice_spec r spec s container w.now
    refine ⟨⟨hext.trans h.whole, fun t ht => ⟨spec, hspec, ?_⟩⟩, hstep⟩
    rw [htasks, List.mem_append, List.mem_singleton] at ht
    obtain ht | rfl := ht
    · obtain ⟨_, hsame, hpod⟩ := h.tasks t ht
      simp only [streamed?, hp, Option.some.injEq] at hsame
      exact hsame ▸ hpod
    · rfl
  | joinedPanicked _ _ hj | joined _ _ hj =>
    exact ⟨⟨h.whole, fun t ht => h.tasks t (mem_of_joinable? hj t ht)⟩, rfl⟩
  | @joinedAll spec fatal hp _ hnone =>
    obtain ⟨-, hstep, hext, htasks⟩ := afterJoining_spec setup r spec fatal w.now h.whole
    exact ⟨.of_nil (hext.trans h.whole) (htasks.trans hnone), hstep⟩
  | @finishingLook spec f watch outcome _ hp =>
    obtain ⟨-, hstep, hext, htasks⟩ :=
      afterFinishing_spec setup r spec { f with watch } w.now outcome h.whole
    have hnone := hnil (by simp [streamed?, hp])
    exact ⟨.of_nil (hext.trans h.whole) (htasks.trans hnone), hstep⟩

theorem Tidy.actTask (h : r.Tidy) {id : Nat} (hact : r.actTask setup id w = some (r', w')) :
    r'.Tidy ∧ r'.step = r.step := by
  obtain ⟨t, result, hfind, ht, rfl, rfl⟩ := transition_of_actTask hact
  obtain ⟨spec, hs, htpod⟩ := h.tasks t (List.mem_of_find?_eq_some hfind)
  refine ⟨⟨h.whole, fun u hu => ?_⟩, rfl⟩
  obtain ⟨v, hv, rfl⟩ := List.mem_map.1 hu
  split
  · exact ⟨spec, hs, ht.calls.1.trans htpod⟩
  · exact h.tasks v hv

theorem Tidy.event {e : RunEvent σ} (h : e.before.Tidy) (hv : e.Valid setup) :
    e.after.Tidy ∧ e.after.step = e.before.step := by
  unfold RunEvent.Valid at hv
  split at hv
  · exact h.transition (transition_of_act hv)
  · exact h.actTask hv

end Run

end StepRunner
