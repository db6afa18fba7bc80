import StepRunner.Proofs.Run.Roster

/-!
# The fan-out of log tasks

All log tasks that a run has started, against its steps so far: one task for each notice that was
sent and for each container that is captured late.  So the log stream of a container is opened as
often as the container was handed out, and its lines follow its notice if it was handed out once.

* `RunEvent.forked`          the containers that a step has started a log task for
* `RunEvent.Forks`           what a step of the run itself does to its log tasks
* `Run.Staff`                all log tasks of a run, against its steps so far
* `Staff.fork`               what a step of the run itself makes of them
* `Staff.advance`            what a step of one of them makes of them
* `Run.Ledger`               what they have opened, and what was sent
-/

namespace StepRunner

variable {σ : Type}

/-! ## lists -/

/-- where just some elements bring forth what is wanted, the others need not be looked at -/
theorem filter_flatMap_of {α β : Type} {p : α → Bool} {q : β → Bool} {f : α → List β} {l : List α}
    (hin : ∀ a ∈ l, p a = true → ∀ b ∈ f a, q b = true)
    (hout : ∀ a ∈ l, p a = false → ∀ b ∈ f a, q b = false) :
    (l.flatMap f).filter q = (l.filter p).flatMap f := by
  induction l with
  | nil => rfl
  | cons a l ih =>
    obtain ⟨hin₁, hin⟩ := List.forall_mem_cons.1 hin
    obtain ⟨hout₁, hout⟩ := List.forall_mem_cons.1 hout
    rw [List.flatMap_cons, List.filter_append, ih hin hout]
    cases hp : p a with
    | true =>
      rw [List.filter_eq_self.2 (hin₁ hp), List.filter_cons_of_pos hp, List.flatMap_cons]
    | false =>
      have hnone : (f a).filter q = [] := List.filter_eq_nil_iff.2 fun b hb => by
        rw [hout₁ hp b hb]
        exact Bool.false_ne_true
      rw [hnone, List.filter_cons_of_neg (by simp [hp])]
      rfl

theorem index_eq_of_count_le_one {names : List String} {name : String} {i j : Nat}
    (h : names.count name ≤ 1) (hi : names[i]? = some name) (hj : names[j]? = some name) :
    i = j := by
  induction names generalizing i j with
  | nil => simp at hi
  | cons n names ih =>
    have hlater {k : Nat} (hk : names[k]? = some name) : 0 < names.count name :=
      List.count_pos_iff.2 (List.mem_of_getElem? hk)
    rw [List.count_cons] at h
    cases i with
    | zero =>
      cases j with
      | zero => rfl
      | succ j =>
        have hn : n = name := by simpa using hi
        have hpos := hlater (by simpa using hj)
        simp only [hn, beq_self_eq_true, if_true] at h
        omega
    | succ i =>
      rw [List.getElem?_cons_succ] at hi
      cases j with
      | zero =>
        have hn : n = name := by simpa using hj
        have hpos := hlater hi
        simp only [hn, beq_self_eq_true, if_true] at h
        omega
      | succ j => rw [ih (Nat.le_trans (Nat.le_add_right _ _) h) hi (by simpa using hj)]

theorem count_flatMap_append {α : Type} (f g : α → List String) (l : List α) (name : String) :
    (l.flatMap fun a => f a ++ g a).count name =
      (l.flatMap f).count name + (l.flatMap g).count name := by
  induction l with
  | nil => rfl
  | cons a l ih =>
    simp only [List.flatMap_cons, List.count_append, ih]
    omega

/-! ## new log tasks -/

/-- log tasks that are about to begin, one for each of some containers, numbered from `first` on -/
def LogTask.beginAll (pod : PodRef) (step : String) (now : Nat) :
    (first : Nat) → List String → List LogTask
  | _, [] => []
  | first, container :: rest =>
    .begin first pod step container now :: beginAll pod step now (first + 1) rest

theorem LogTask.container_beginAll (pod : PodRef) (step : String) (now first : Nat)
    (names : List String) : (beginAll pod step now first names).map (·.container) = names := by
  induction names generalizing first with
  | nil => rfl
  | cons name names ih => rw [beginAll, List.map_cons, ih]; rfl

theorem LogTask.length_beginAll (pod : PodRef) (step : String) (now first : Nat)
    (names : List String) : (beginAll pod step now first names).length = names.length := by
  rw [← List.length_map (·.container), container_beginAll]

theorem LogTask.id_beginAll {pod : PodRef} {step : String} {now first k : Nat}
    {names : List String} {t : LogTask} (h : (beginAll pod step now first names)[k]? = some t) :
    t.id = first + k ∧ t.step = step ∧ t.phase = .opening ⟨now, false⟩ := by
  induction names generalizing first k with
  | nil => simp [beginAll] at h
  | cons name names ih =>
    cases k with
    | zero =>
      have ht : LogTask.begin first pod step name now = t := by simpa [beginAll] using h
      subst ht
      exact ⟨rfl, rfl, rfl⟩
    | succ k =>
      obtain ⟨hid, hstep, hphase⟩ := ih (by simpa [beginAll] using h)
      exact ⟨by omega, hstep, hphase⟩

theorem Run.spawnLate_eq_beginAll (pod : PodRef) (now : Nat) (streamed : List String)
    (os : List Observation) (r : Run) :
    spawnLate pod now streamed os r = { r with
      tasks := r.tasks ++
        LogTask.beginAll pod r.step.name now r.started (lateNames streamed os)
      started := r.started + (lateNames streamed os).length } := by
  induction os generalizing streamed r with
  | nil => simp [spawnLate, lateNames, LogTask.beginAll]
  | cons o os ih =>
    unfold spawnLate lateNames
    split
    next => exact ih streamed r
    next =>
      rw [ih]
      simp only [spawn, LogTask.beginAll, List.length_cons, List.append_assoc,
        List.singleton_append, Run.mk.injEq, true_and, and_true]
      omega

theorem Run.joinable?_spec {tasks rest : List LogTask} {t : LogTask}
    (h : joinable? tasks = some (t, rest)) :
    t.isOver = true ∧ rest.Sublist tasks ∧ ∀ u ∈ tasks, u = t ∨ u ∈ rest := by
  induction tasks generalizing rest with
  | nil => cases h
  | cons u tasks ih =>
    unfold joinable? at h
    split at h
    next hover =>
      cases h
      exact ⟨hover, List.sublist_cons_self _ _, fun v hv => List.mem_cons.1 hv⟩
    next =>
      rw [Option.map_eq_some_iff] at h
      obtain ⟨⟨v, others⟩, hjoin, heq⟩ := h
      cases heq
      obtain ⟨hover, hsub, hall⟩ := ih hjoin
      refine ⟨hover, hsub.cons_cons u, fun x hx => ?_⟩
      obtain rfl | hx := List.mem_cons.1 hx
      · exact .inr List.mem_cons_self
      · exact (hall x hx).imp_right (List.mem_cons_of_mem _)

/-! ## what a step of a run does to its log tasks -/

namespace RunEvent

/-- the containers that a step has started a log task for -/
def forked (setup : Setup σ) (e : RunEvent σ) : List String := e.noticed ++ e.late setup

theorem forked_eq_nil {setup : Setup σ} {e : RunEvent σ} (hn : e.noticed = [])
    (hl : e.late setup = []) : e.forked setup = [] := by
  rw [forked, hn, hl]
  rfl

theorem forked_of_phase (setup : Setup σ) {e : RunEvent σ}
    (h : e.after.phase = e.before.phase) : e.forked setup = [] := by
  obtain ⟨-, hn, hl⟩ := quiet_of_phase setup h
  exact forked_eq_nil hn hl

/-- What a step of a run itself does to its log tasks, `new` being those that it starts. -/
structure Forks (setup : Setup σ) (e : RunEvent σ) (new : List LogTask) : Prop where
  step : e.after.step = e.before.step
  started : e.after.started = e.before.started + new.length
  forked : new.map (·.container) = e.forked setup
  begun : ∀ k t, new[k]? = some t → t.id = e.before.started + k ∧
    t.step = e.before.step.name ∧ t.phase = .opening ⟨e.seen.now, false⟩
  tasks : e.after.tasks = e.before.tasks ++ new ∨
    (new = [] ∧ ∃ t, Run.joinable? e.before.tasks = some (t, e.after.tasks)) ∨
    (new = [] ∧ e.after.tasks = [] ∧ e.seen.cancelled = true)
  idle : (e.before.streamed? = none → e.before.tasks = []) → e.after.streamed? = none →
    e.after.tasks = []
  openings : e.openings setup = []
  noticed : e.seen.channel.isOpen = true →
    e.sent = e.noticed.map (.containerReady e.before.step.name)
  sent : ∀ line ∈ e.sent, line.container ∈ e.noticed ∧ line.kind = .containerReady

variable {setup : Setup σ} {e : RunEvent σ}

theorem forks_nil (hstep : e.after.step = e.before.step)
    (hstarted : e.after.started = e.before.started) (hforked : e.forked setup = [])
    (htasks : e.after.tasks = e.before.tasks ∨
      (∃ t, Run.joinable? e.before.tasks = some (t, e.after.tasks)) ∨
      (e.after.tasks = [] ∧ e.seen.cancelled = true))
    (hidle : (e.before.streamed? = none → e.before.tasks = []) → e.after.streamed? = none →
      e.after.tasks = [])
    (hopenings : e.openings setup = []) (hsent : e.left.channel = e.seen.channel) :
    e.Forks setup [] := by
  have hnoticed : e.noticed = [] := (List.append_eq_nil_iff.1 hforked).1
  refine ⟨hstep, hstarted, hforked.symm, by simp, ?_, hidle, hopenings, fun _ => ?_, ?_⟩
  · obtain h | h | h := htasks
    · exact .inl (by rw [h, List.append_nil])
    · exact .inr (.inl ⟨rfl, h⟩)
    · exact .inr (.inr ⟨rfl, h⟩)
  · rw [sent_of_same hsent, hnoticed]
    rfl
  · rw [sent_of_same hsent]
    simp

theorem forks_unstreamed (hnone : e.before.streamed? = none)
    (hstep : e.after.step = e.before.step) (hstarted : e.after.started = e.before.started)
    (htasks : e.after.tasks = e.before.tasks) (hopenings : e.openings setup = [])
    (hsent : e.left.channel = e.seen.channel) : e.Forks setup [] := by
  obtain ⟨-, hn, hl⟩ := quiet_of_unstreamed setup hnone
  exact forks_nil hstep hstarted (forked_eq_nil hn hl) (.inl htasks)
    (fun hidle _ => htasks.trans (hidle hnone)) hopenings hsent

theorem forks_look {pod : PodRef} {spec : PodSpec} (hstep : e.after.step = e.before.step)
    (hstarted : e.after.started = e.before.started) (hnoticed : e.noticed = [])
    (hlate : e.late setup = []) (htasks : e.after.tasks = e.before.tasks)
    (hsome : e.after.streamed? = some spec)
    (hcalls : e.left.calls = (e.seen.fetch setup.platform pod).2.calls)
    (hsent : e.left.channel = e.seen.channel) : e.Forks setup [] :=
  forks_nil hstep hstarted (forked_eq_nil hnoticed hlate) (.inl htasks)
    (fun _ hnone => absurd (hsome.symm.trans hnone) (Option.some_ne_none spec))
    (openings_of_call hcalls (by simp)) hsent

/-- a task stays until it is over, unless the token has fired -/
theorem Forks.keeps {new : List LogTask} (hf : e.Forks setup new)
    (hidle : e.before.streamed? = none → e.before.tasks = []) (hunc : e.Uncancelled)
    {t : LogTask} (ht : t ∈ e.before.tasks) : t ∈ e.after.tasks ∨ t.isOver = true := by
  obtain htasks | ⟨-, u, hj⟩ | ⟨-, -, hc⟩ := hf.tasks
  · rw [htasks]
    exact .inl (List.mem_append_left _ ht)
  · obtain ⟨hover, -, hall⟩ := Run.joinable?_spec hj
    obtain rfl | hrest := hall t ht
    · exact .inr hover
    · exact .inl hrest
  · have hsome : e.before.streamed? ≠ none := fun hnone => by
      rw [hidle hnone] at ht
      cases ht
    rw [hunc hsome] at hc
    cases hc

theorem Forks.mem_new {new : List LogTask} (hf : e.Forks setup new) {t : LogTask}
    (ht : t ∈ new) : e.before.started ≤ t.id ∧ t.step = e.before.step.name ∧
      t.isOpening = true ∧ t ∈ e.after.tasks := by
  obtain ⟨k, hk⟩ := List.getElem?_of_mem ht
  obtain ⟨hid, hstep, hphase⟩ := hf.begun k t hk
  refine ⟨by omega, hstep, by rw [LogTask.isOpening, hphase], ?_⟩
  obtain htasks | ⟨rfl, -⟩ | ⟨rfl, -⟩ := hf.tasks
  · rw [htasks]
    exact List.mem_append_right _ ht
  · cases ht
  · cases ht

theorem Forks.mem_tasks {new : List LogTask} (h : e.Forks setup new) {t : LogTask}
    (ht : t ∈ e.after.tasks) :
    t ∈ e.before.tasks ∨ e.before.started ≤ t.id ∧ t.id < e.after.started := by
  rcases h.tasks with htasks | ⟨-, u, hj⟩ | ⟨-, hnil, -⟩
  · rw [htasks] at ht
    rcases List.mem_append.1 ht with ht | ht
    · exact .inl ht
    · obtain ⟨k, hk⟩ := List.getElem?_of_mem ht
      have hid := (h.begun k t hk).1
      have hlt := (List.getElem?_eq_some_iff.1 hk).1
      have hstarted := h.started
      exact .inr ⟨by omega, by omega⟩
  · exact .inl ((Run.joinable?_spec hj).2.1.subset ht)
  · rw [hnil] at ht
    cases ht

theorem Forks.countP_new {new : List LogTask} (hf : e.Forks setup new) (name : String) :
    new.countP (fun t => t.container = name && t.isOpening) = (e.forked setup).count name := by
  rw [← hf.forked, List.count, List.countP_map]
  refine List.countP_congr fun t ht => ?_
  simp [(hf.mem_new ht).2.2.1]

end RunEvent

namespace Run

variable {setup : Setup σ} {e : RunEvent σ}

/-- The end of the wait for containers to be ready.  Only where the pod has come to its end are
there new log tasks: nothing is pending where nothing is left, and an error ends the streaming. -/
theorem forks_afterStreaming {task : Option Nat} {r : Run} {w w' : World σ} {spec : PodSpec}
    {s : Streaming} {watch : Watch} {error : RunError} {warnings : List Warning}
    (hp : r.phase = .streaming spec s)
    (ha : s.watch.answer s.polls (w.fetch setup.platform spec.ref).1 =
      (watch, some (.error error), warnings))
    (hcalls : w'.calls = (w.fetch setup.platform spec.ref).2.calls)
    (hsent : w'.channel = w.channel) :
    ∃ new, RunEvent.Forks setup
      ⟨task, r, w, r.afterStreaming spec { s with watch } w.now (.error error), w'⟩ new := by
  have hnoticed (r' : Run) : RunEvent.noticed ⟨task, r, w, r', w'⟩ = [] := by
    simp only [RunEvent.noticed, hp]
  have hlook := Watch.look_of_answer ha
  generalize (w.fetch setup.platform spec.ref).1 = answer at hlook
  cases hlook with
  | refused | limitReached =>
    exact ⟨[], RunEvent.forks_look rfl rfl (hnoticed _)
      (RunEvent.late_of_joining_error setup rfl) rfl rfl hcalls hsent⟩
  | nothingLeft hs hr =>
    refine ⟨[], RunEvent.forks_look rfl rfl (hnoticed _) ?_ rfl rfl hcalls hsent⟩
    rw [RunEvent.late_of_streaming hp ha rfl, Watch.pending_of_remaining hr]
    rfl
  | @podFinished snapshot hs hphase =>
    have hforked (r' : Run) (hp' : r'.phase = .joining spec none) :
        RunEvent.forked setup ⟨task, r, w, r', w'⟩ =
          lateNames s.streamed (s.watch.absorb snapshot).1.pending := by
      rw [RunEvent.forked, hnoticed, RunEvent.late_of_streaming hp ha hp']
      rfl
    have hafter : r.afterStreaming spec { s with watch := (s.watch.absorb snapshot).1 } w.now
          (.error (.podFinished s.watch.pod.text (s.watch.absorb snapshot).1.phase s.watch.goal
            (s.watch.absorb snapshot).1.pending.length)) =
        (spawnLate spec.ref w.now s.streamed (s.watch.absorb snapshot).1.pending r).goTo
          (.joining spec none) w.now := rfl
    rw [hafter, spawnLate_eq_beginAll]
    have hnames := LogTask.container_beginAll spec.ref r.step.name w.now r.started
      (lateNames s.streamed (s.watch.absorb snapshot).1.pending)
    refine ⟨_, rfl, ?_, hnames.trans (hforked _ rfl).symm, fun k t ht => LogTask.id_beginAll ht,
      .inl rfl, fun _ hnone => absurd hnone (Option.some_ne_none spec),
      RunEvent.openings_of_call hcalls (by simp), fun _ => ?_, ?_⟩
    · rw [LogTask.length_beginAll]
      rfl
    · rw [RunEvent.sent_of_same hsent, hnoticed]
      rfl
    · rw [RunEvent.sent_of_same hsent]
      simp

theorem forks_announced {task : Option Nat} {r : Run} {w : World σ} {spec : PodSpec}
    {s : Streaming} {container : String} (hp : r.phase = .announcing spec s container) :
    RunEvent.Forks setup ⟨task, r, w, r.afterNotice spec s container w.now,
        w.send (.containerReady r.step.name container)⟩
      [.begin r.started spec.ref r.step.name container w.now] := by
  obtain ⟨hspec, hstep, -, -, htasks⟩ := afterNotice_spec r spec s container w.now
  have hnoticed : RunEvent.noticed ⟨task, r, w, r.afterNotice spec s container w.now,
      w.send (.containerReady r.step.name container)⟩ = [container] :=
    RunEvent.noticed_of_announcing hp (phase_afterNotice r spec s container w.now)
  refine ⟨hstep, rfl, ?_, fun k t ht => ?_, .inl htasks, fun _ hnone => ?_,
    RunEvent.openings_of_no_call rfl, fun hopen => ?_, ?_⟩
  · rw [RunEvent.forked, hnoticed]
    simp only [RunEvent.late, hp, List.append_nil]
    rfl
  · have ht : (LogTask.beginAll spec.ref r.step.name w.now r.started [container])[k]? = some t := ht
    exact LogTask.id_beginAll ht
  · rw [hspec] at hnone
    cases hnone
  · rw [RunEvent.sent_of_open hopen rfl, hnoticed]
    rfl
  · cases hopen : w.channel.isOpen with
    | true =>
      rw [RunEvent.sent_of_open hopen rfl, hnoticed]
      exact List.forall_mem_singleton.2 ⟨List.mem_singleton_self container, rfl⟩
    | false =>
      rw [RunEvent.sent_of_closed hopen rfl]
      simp

/-- **What a step of a run does to its log tasks.** -/
theorem forks_of_transition (ht : Transition setup e.before e.seen e.after e.left) :
    ∃ new, e.Forks setup new := by
  obtain ⟨task, r, w, r', w'⟩ := e
  have ht : Transition setup r w r' w' := ht
  cases ht with
  | cancelledEarly hp | buildPanicked hp | buildRefused hp | built hp =>
    exact ⟨[], RunEvent.forks_unstreamed (by simp only [streamed?, hp]) rfl rfl rfl
      (RunEvent.openings_of_no_call rfl) rfl⟩
  | asked hp =>
    exact ⟨[], RunEvent.forks_nil rfl rfl (RunEvent.forked_of_phase setup rfl) (.inl rfl)
      (fun hidle hnone => hidle hnone) (RunEvent.openings_of_no_call rfl) rfl⟩
  | createRefused hp | deleteRefused hp | deleted hp =>
    exact ⟨[], RunEvent.forks_unstreamed (by simp only [streamed?, hp]) rfl rfl rfl
      (RunEvent.openings_of_call rfl (by simp)) rfl⟩
  | @created spec identity _ hp =>
    refine ⟨[], RunEvent.forks_unstreamed (by simp only [streamed?, hp]) rfl rfl rfl ?_ ?_⟩
    · refine RunEvent.openings_of_call (c := ⟨w.now, spec.ref, .created true⟩) ?_ (by simp)
      dsimp only
      split <;> rfl
    · dsimp only
      split <;> rfl
  | @cancelled spec _ hc =>
    obtain ⟨-, hn, hl⟩ :=
      RunEvent.quiet_of_deleting (e := ⟨task, r, w, r.cancel spec w.now, w⟩) setup rfl
    exact ⟨[], RunEvent.forks_nil rfl rfl (RunEvent.forked_eq_nil hn hl) (.inr (.inr ⟨rfl, hc⟩))
      (fun _ _ => rfl) (RunEvent.openings_of_no_call rfl) rfl⟩
  | @streamingLook spec s watch outcome _ hp _ _ ha =>
    cases outcome with
    | ok o =>
      exact ⟨[], RunEvent.forks_look rfl rfl (by simp only [RunEvent.noticed, hp])
        (by simp only [RunEvent.late, hp]; rfl) rfl rfl rfl rfl⟩
    | error error => exact forks_afterStreaming hp ha rfl rfl
  | streamingAgain hp =>
    exact ⟨[], RunEvent.forks_look rfl rfl (by simp only [RunEvent.noticed, hp])
      (by simp only [RunEvent.late, hp]; rfl) rfl rfl rfl rfl⟩
  | announced hp => exact ⟨_, forks_announced hp⟩
  | @joinedPanicked spec fatal t tasks hp _ hj | @joined spec fatal t tasks hp _ hj =>
    have hsome : r.streamed? ≠ none := by simp [streamed?, hp]
    exact ⟨[], RunEvent.forks_nil rfl rfl (RunEvent.forked_of_phase setup rfl)
      (.inr (.inl ⟨t, hj⟩)) (fun _ hnone => (hsome hnone).elim)
      (RunEvent.openings_of_no_call rfl) rfl⟩
  | @joinedAll spec fatal hp _ hnil =>
    obtain ⟨-, hstep, htasks, hstarted⟩ := afterJoining_kept setup r spec fatal w.now
    refine ⟨[], RunEvent.forks_nil hstep hstarted (RunEvent.forked_eq_nil
      (by simp only [RunEvent.noticed, hp]) (by simp only [RunEvent.late, hp])) (.inl htasks)
      (fun _ _ => htasks.trans hnil) ?_ ?_⟩
    · refine RunEvent.openings_of_no_call ?_
      dsimp only
      split <;> rfl
    · dsimp only
      split <;> rfl
  | @finishingLook spec f watch outcome _ hp =>
    obtain ⟨-, hstep, htasks, hstarted⟩ :=
      afterFinishing_kept setup r spec { f with watch } w.now outcome
    exact ⟨[], RunEvent.forks_unstreamed (by simp only [streamed?, hp]) hstep hstarted htasks
      (RunEvent.openings_of_call rfl (by simp)) rfl⟩
  | finishingAgain hp =>
    exact ⟨[], RunEvent.forks_unstreamed (by simp only [streamed?, hp]) rfl rfl rfl
      (RunEvent.openings_of_call rfl (by simp)) rfl⟩

/-! ## all log tasks of a run -/

/-- the steps so far that a run itself has made, or the log task with a number -/
def stepsOf (task : Option Nat) (past : List (RunEvent σ)) : List (RunEvent σ) :=
  past.filter (·.task = task)

theorem stepsOf_concat_self (e : RunEvent σ) (past : List (RunEvent σ)) :
    stepsOf e.task (past ++ [e]) = stepsOf e.task past ++ [e] := by
  simp [stepsOf]

theorem stepsOf_concat_of_ne {e : RunEvent σ} {task : Option Nat} (h : e.task ≠ task)
    (past : List (RunEvent σ)) : stepsOf task (past ++ [e]) = stepsOf task past := by
  simp [stepsOf, h]

/-- All log tasks that a run has started, as far as they have come, by their numbers.  Those that
are gone were joined when they were over, or were dropped when the token had fired. -/
structure Staff (setup : Setup σ) (past : List (RunEvent σ)) (all : List LogTask) (r : Run) :
    Prop where
  started : r.started = all.length
  numbered : ∀ (k : Nat) (t : LogTask), all[k]? = some t → t.id = k
  names : all.map (·.container) = past.flatMap (·.forked setup)
  step : ∀ t ∈ all, t.step = r.step.name
  live : r.tasks.Sublist all
  idle : r.streamed? = none → r.tasks = []
  gone : (∀ e ∈ past, e.Uncancelled) → ∀ t ∈ all, t ∈ r.tasks ∨ t.isOver = true
  story : ∀ t ∈ all, t.Story setup (stepsOf (some t.id) past)
  known : ∀ e ∈ past, ∀ id, e.task = some id → id < all.length

variable {past : List (RunEvent σ)} {all new : List LogTask} {r : Run} {t u : LogTask} {id : Nat}

theorem staff_begin (hs : r.started = 0) (ht : r.tasks = []) : Staff setup [] [] r where
  started := hs
  numbered := by simp
  names := rfl
  step := by simp
  live := by simp [ht]
  idle := fun _ => ht
  gone := by simp
  story := by simp
  known := by simp

theorem Staff.getElem?_id (h : Staff setup past all r) (ht : t ∈ all) : all[t.id]? = some t := by
  obtain ⟨k, hk⟩ := List.getElem?_of_mem ht
  rw [h.numbered k t hk]
  exact hk

theorem Staff.eq_of_id (h : Staff setup past all r) (ht : t ∈ all) (hu : u ∈ all)
    (hid : u.id = t.id) : u = t := by
  have hget := h.getElem?_id hu
  rw [hid, h.getElem?_id ht] at hget
  exact (Option.some.inj hget).symm

theorem Staff.stepsOf_eq_nil (h : Staff setup past all r) (hid : all.length ≤ id) :
    stepsOf (some id) past = [] := by
  rw [stepsOf, List.filter_eq_nil_iff]
  intro e he htask
  have hlt := h.known e he id (by simpa using htask)
  omega

theorem Staff.getElem?_forked (h : Staff setup past all r) (ht : t ∈ all) :
    (past.flatMap (·.forked setup))[t.id]? = some t.container := by
  rw [← h.names, List.getElem?_map, h.getElem?_id ht]
  rfl

theorem Staff.fork (h : Staff setup past all e.before) (he : e.task = none)
    (hf : e.Forks setup new) : Staff setup (past ++ [e]) (all ++ new) e.after := by
  have hne (id : Nat) : e.task ≠ some id := by
    rw [he]
    simp
  refine ⟨?started, ?numbered, ?names, ?step, ?live, hf.idle h.idle, ?gone, ?story, ?known⟩
  case started =>
    rw [hf.started, h.started, List.length_append]
  case numbered =>
    intro k t ht
    rw [List.getElem?_append] at ht
    split at ht
    next => exact h.numbered k t ht
    next hk =>
      have hid := (hf.begun _ t ht).1
      rw [h.started] at hid
      omega
  case names =>
    rw [List.map_append, h.names, hf.forked, RunEvent.flatMap_concat]
  case step =>
    intro t ht
    rw [hf.step]
    obtain ht | ht := List.mem_append.1 ht
    · exact h.step t ht
    · exact (hf.mem_new ht).2.1
  case live =>
    obtain htasks | ⟨rfl, t, hj⟩ | ⟨rfl, htasks, -⟩ := hf.tasks
    · rw [htasks]
      exact h.live.append (List.Sublist.refl new)
    · rw [List.append_nil]
      exact (joinable?_spec hj).2.1.trans h.live
    · rw [htasks]
      exact List.nil_sublist _
  case gone =>
    intro hunc t ht
    obtain ht | ht := List.mem_append.1 ht
    · obtain hlive | hover := h.gone (fun x hx => hunc x (List.mem_append_left _ hx)) t ht
      · exact hf.keeps h.idle (hunc e (List.mem_append_right past List.mem_cons_self)) hlive
      · exact .inr hover
    · exact .inl (hf.mem_new ht).2.2.2
  case story =>
    intro t ht
    rw [stepsOf_concat_of_ne (hne t.id)]
    obtain ht | ht := List.mem_append.1 ht
    · exact h.story t ht
    · obtain ⟨hid, -, hopening, -⟩ := hf.mem_new ht
      rw [h.stepsOf_eq_nil (by rw [← h.started]; exact hid)]
      exact .opening hopening rfl rfl
  case known =>
    intro x hx id hid
    rw [List.length_append]
    obtain hx | hx := List.mem_append.1 hx
    · have hlt := h.known x hx id hid
      omega
    · rw [List.mem_singleton.1 hx] at hid
      exact absurd hid (hne id)

theorem mem_putTask {t u : LogTask} {tasks : List LogTask} (h : u ∈ putTask t tasks) :
    u = t ∨ u ∈ tasks ∧ u.id ≠ t.id := by
  obtain ⟨v, hv, rfl⟩ := List.mem_map.1 h
  by_cases hid : v.id = t.id
  · rw [if_pos hid]
    exact .inl rfl
  · rw [if_neg hid]
    exact .inr ⟨hv, hid⟩

theorem mem_putTask_self {t u : LogTask} {tasks : List LogTask} (hu : u ∈ tasks)
    (hid : u.id = t.id) : t ∈ putTask t tasks :=
  List.mem_map.2 ⟨u, hu, if_pos hid⟩

theorem mem_putTask_of_ne {t u : LogTask} {tasks : List LogTask} (hu : u ∈ tasks)
    (hid : u.id ≠ t.id) : u ∈ putTask t tasks :=
  List.mem_map.2 ⟨u, hu, if_neg hid⟩

theorem Staff.countP_putTask (h : Staff setup past all r) (ht : t ∈ all) (hid : u.id = t.id)
    (p : LogTask → Bool) :
    (putTask u all).countP p + (if p t then 1 else 0) = all.countP p + if p u then 1 else 0 := by
  obtain ⟨front, back, hsplit⟩ := List.append_of_mem ht
  have hnumber {k : Nat} {v : LogTask} (hv : (front ++ t :: back)[k]? = some v) : v.id = k :=
    h.numbered k v (by rw [hsplit]; exact hv)
  have hself : t.id = front.length := hnumber (by simp)
  have hfront : front.map (fun v => if v.id = u.id then u else v) = front := by
    refine (List.map_congr_left fun v hv => ?_).trans (List.map_id' front)
    obtain ⟨k, hk⟩ := List.getElem?_of_mem hv
    have hlt := (List.getElem?_eq_some_iff.1 hk).1
    have hv : v.id = k := hnumber (by rw [List.getElem?_append_left hlt]; exact hk)
    exact if_neg (by omega)
  have hback : back.map (fun v => if v.id = u.id then u else v) = back := by
    refine (List.map_congr_left fun v hv => ?_).trans (List.map_id' back)
    obtain ⟨k, hk⟩ := List.getElem?_of_mem hv
    have hv : v.id = front.length + (k + 1) := hnumber (by
      rw [List.getElem?_append_right (Nat.le_add_right _ _), Nat.add_sub_cancel_left]
      exact hk)
    exact if_neg (by omega)
  have hput : putTask u all = front ++ u :: back := by
    rw [hsplit, putTask, List.map_append, List.map_cons, hfront, hback, if_pos hid.symm]
  rw [hput, hsplit, List.countP_append, List.countP_append, List.countP_cons, List.countP_cons]
  omega

theorem Staff.advance {result : LogTask.Result σ} (h : Staff setup past all e.before)
    (he : e.task = some t.id) (ht : t ∈ e.before.tasks)
    (hm : LogTask.Transition setup.platform setup.config.sanitize t e.seen result)
    (hl : e.left = result.world) (ha : e.after = { e.before with
      tasks := putTask result.task e.before.tasks
      failures := e.before.failures ++ result.failure.toList }) :
    Staff setup (past ++ [e]) (putTask result.task all) e.after := by
  obtain ⟨hid, hstep, hcontainer, -⟩ := hm.outputs hl
  have hall : t ∈ all := h.live.subset ht
  have hforked : e.forked setup = [] := RunEvent.forked_of_phase setup (by rw [ha])
  have hlength : (putTask result.task all).length = all.length := List.length_map _
  rw [ha]
  refine ⟨?started, ?numbered, ?names, ?step, h.live.map _, fun hnone => ?idle, ?gone, ?story,
    ?known⟩
  case started =>
    rw [hlength]
    exact h.started
  case numbered =>
    intro k u hu
    rw [putTask, List.getElem?_map, Option.map_eq_some_iff] at hu
    obtain ⟨v, hv, rfl⟩ := hu
    have hk := h.numbered k v hv
    split
    next hsame => rw [← hsame, hk]
    next => exact hk
  case names =>
    rw [RunEvent.flatMap_concat_of_nil hforked, ← h.names, putTask, List.map_map]
    refine List.map_congr_left fun u hu => ?_
    show (if u.id = result.task.id then result.task else u).container = u.container
    split
    next hsame => rw [hcontainer, h.eq_of_id hall hu (hsame.trans hid)]
    next => rfl
  case step =>
    intro u hu
    obtain rfl | ⟨hu, -⟩ := mem_putTask hu
    · rw [hstep]
      exact h.step t hall
    · exact h.step u hu
  case idle =>
    have hnil : e.before.tasks = [] := h.idle hnone
    rw [hnil] at ht
    cases ht
  case gone =>
    intro hunc u hu
    obtain rfl | ⟨hu, hne⟩ := mem_putTask hu
    · exact .inl (mem_putTask_self ht hid.symm)
    · obtain hlive | hover := h.gone (fun x hx => hunc x (List.mem_append_left _ hx)) u hu
      · exact .inl (mem_putTask_of_ne hlive hne)
      · exact .inr hover
  case story =>
    intro u hu
    obtain rfl | ⟨hu, hne⟩ := mem_putTask hu
    · rw [hid, ← he, stepsOf_concat_self, he]
      exact (h.story t hall).transition hm hl
    · rw [stepsOf_concat_of_ne]
      · exact h.story u hu
      · rw [he, ← hid]
        exact fun heq => hne (Option.some.inj heq).symm
  case known =>
    intro x hx id hx'
    rw [hlength]
    obtain hx | hx := List.mem_append.1 hx
    · exact h.known x hx id hx'
    · rw [List.mem_singleton.1 hx, he] at hx'
      cases hx'
      exact (List.getElem?_eq_some_iff.1 (h.getElem?_id hall)).1

/-! ## what was opened and sent -/

/-- the lines for a container -/
def about (name : String) (lines : List LogLine) : List LogLine :=
  lines.filter (·.container = name)

theorem about_append (name : String) (lines more : List LogLine) :
    about name (lines ++ more) = about name lines ++ about name more := List.filter_append ..

theorem about_eq_nil {name : String} {lines : List LogLine}
    (h : ∀ line ∈ lines, line.container ≠ name) : about name lines = [] := by
  rw [about, List.filter_eq_nil_iff]
  intro line hline
  simpa using h line hline

theorem about_eq_self {name : String} {lines : List LogLine}
    (h : ∀ line ∈ lines, line.container = name) : about name lines = lines := by
  rw [about, List.filter_eq_self]
  intro line hline
  simpa using h line hline

theorem about_stepsOf_eq_nil {name : String} (task : Option Nat)
    (h : about name (past.flatMap (·.sent)) = []) :
    about name ((stepsOf task past).flatMap (·.sent)) = [] := by
  refine about_eq_nil fun line hline heq => ?_
  obtain ⟨e, he, hline⟩ := List.mem_flatMap.1 hline
  have hsome : line ∈ about name (past.flatMap (·.sent)) :=
    List.mem_filter.2 ⟨List.mem_flatMap.2 ⟨e, (List.mem_filter.1 he).1, hline⟩, by simpa using heq⟩
  rw [h] at hsome
  cases hsome

/-- What the log tasks of a run have opened, and what was sent: notices by the run itself, output by
its log tasks.  Of a container that has one log task the notice comes first. -/
structure Ledger (setup : Setup σ) (step : String) (past : List (RunEvent σ))
    (all : List LogTask) : Prop where
  opened : ∀ e ∈ past, ∀ o ∈ e.openings setup,
    ∃ id : Nat, e.task = some id ∧ (past.flatMap (·.forked setup))[id]? = some o.1
  tally : ∀ name, (past.flatMap (·.openings setup)).countP (·.1 = name) +
    all.countP (fun t => t.container = name && t.isOpening) =
      (past.flatMap (·.forked setup)).count name
  notices : (∀ e ∈ past, e.seen.channel.isOpen = true) →
    (stepsOf none past).flatMap (·.sent) =
      (past.flatMap (·.noticed)).map (.containerReady step)
  kinds : ∀ line ∈ (stepsOf none past).flatMap (·.sent), line.kind = .containerReady
  outputs : ∀ e ∈ past, e.task ≠ none → ∀ line ∈ e.sent, line.kind = .output
  order : ∀ (id : Nat) (name : String), (past.flatMap (·.forked setup))[id]? = some name →
    (past.flatMap (·.forked setup)).count name ≤ 1 →
    about name (past.flatMap (·.sent)) = about name ((stepsOf none past).flatMap (·.sent)) ++
      (stepsOf (some id) past).flatMap (·.sent)
  silent : ∀ name ∉ past.flatMap (·.forked setup), about name (past.flatMap (·.sent)) = []

theorem ledger_begin (setup : Setup σ) (step : String) : Ledger setup step [] [] where
  opened := by simp
  tally := by simp
  notices := by simp [stepsOf]
  kinds := by simp [stepsOf]
  outputs := by simp
  order := by simp
  silent := by simp [about]

theorem Ledger.fork (h : Ledger setup e.before.step.name past all)
    (hs : Staff setup past all e.before) (he : e.task = none) (hf : e.Forks setup new) :
    Ledger setup e.before.step.name (past ++ [e]) (all ++ new) := by
  have hnames : (past ++ [e]).flatMap (·.forked setup) =
      past.flatMap (·.forked setup) ++ e.forked setup := RunEvent.flatMap_concat ..
  have hsent : (past ++ [e]).flatMap (·.sent) = past.flatMap (·.sent) ++ e.sent :=
    RunEvent.flatMap_concat ..
  have hown : (stepsOf none (past ++ [e])).flatMap (·.sent) =
      (stepsOf none past).flatMap (·.sent) ++ e.sent := by
    rw [← he, stepsOf_concat_self, RunEvent.flatMap_concat]
  have htask (id : Nat) : stepsOf (some id) (past ++ [e]) = stepsOf (some id) past :=
    stepsOf_concat_of_ne (by simp [he]) past
  have hquiet {name : String} (hname : name ∉ e.forked setup) : about name e.sent = [] := by
    refine about_eq_nil fun line hline heq => hname ?_
    rw [← heq]
    exact List.mem_append_left _ (hf.sent line hline).1
  refine ⟨fun x hx o ho => ?opened, fun name => ?tally, fun hopen => ?notices, ?kinds,
    fun x hx hx' => ?outputs, ?order, ?silent⟩
  case opened =>
    obtain hx | hx := List.mem_append.1 hx
    · obtain ⟨id, hid, hget⟩ := h.opened x hx o ho
      refine ⟨id, hid, ?_⟩
      rw [hnames, List.getElem?_append_left (List.getElem?_eq_some_iff.1 hget).1]
      exact hget
    · rw [List.mem_singleton.1 hx, hf.openings] at ho
      cases ho
  case tally =>
    have hopenings : (past ++ [e]).flatMap (·.openings setup) =
        past.flatMap (·.openings setup) := RunEvent.flatMap_concat_of_nil hf.openings
    rw [hnames, hopenings, List.countP_append, hf.countP_new, List.count_append, ← h.tally name,
      Nat.add_assoc]
  case notices =>
    rw [hown, RunEvent.flatMap_concat, List.map_append,
      h.notices fun x hx => hopen x (List.mem_append_left _ hx),
      hf.noticed (hopen e (List.mem_append_right past List.mem_cons_self))]
  case kinds =>
    rw [hown]
    intro line hline
    obtain hline | hline := List.mem_append.1 hline
    · exact h.kinds line hline
    · exact (hf.sent line hline).2
  case outputs =>
    obtain hx | hx := List.mem_append.1 hx
    · exact h.outputs x hx hx'
    · rw [List.mem_singleton.1 hx] at hx'
      exact absurd he hx'
  case order =>
    intro id name hget hcount
    rw [hnames, List.count_append] at hcount
    rw [hsent, hown, htask, about_append, about_append]
    rw [hnames, List.getElem?_append] at hget
    split at hget
    next =>
      -- a container that has its log task already
      have hpos := List.count_pos_iff.2 (List.mem_of_getElem? hget)
      have hno : name ∉ e.forked setup := List.count_eq_zero.1 (by omega)
      rw [hquiet hno, h.order id name hget (by omega)]
      simp
    next hid =>
      have hpos := List.count_pos_iff.2 (List.mem_of_getElem? hget)
      have hno : name ∉ past.flatMap (·.forked setup) := List.count_eq_zero.1 (by omega)
      have hnone := h.silent name hno
      have hlength : all.length ≤ id := by
        rw [← hs.names, List.length_map] at hid
        omega
      rw [hnone, about_stepsOf_eq_nil none hnone, hs.stepsOf_eq_nil hlength]
      simp
  case silent =>
    intro name hname
    rw [hnames, List.mem_append, not_or] at hname
    rw [hsent, about_append, h.silent name hname.1, hquiet hname.2]
    rfl

theorem Ledger.advance {step : String} {result : LogTask.Result σ}
    (h : Ledger setup step past all) (hs : Staff setup past all e.before)
    (he : e.task = some t.id) (ht : t ∈ e.before.tasks)
    (hm : LogTask.Transition setup.platform setup.config.sanitize t e.seen result)
    (hl : e.left = result.world) (hp : e.after.phase = e.before.phase) :
    Ledger setup step (past ++ [e]) (putTask result.task all) := by
  obtain ⟨hid, -, hcontainer, hsent⟩ := hm.outputs hl
  have hall : t ∈ all := hs.live.subset ht
  have hn : e.noticed = [] := (RunEvent.quiet_of_phase setup hp).2.1
  have hnames : (past ++ [e]).flatMap (·.forked setup) = past.flatMap (·.forked setup) :=
    RunEvent.flatMap_concat_of_nil (RunEvent.forked_of_phase setup hp)
  have hall' : (past ++ [e]).flatMap (·.sent) = past.flatMap (·.sent) ++ e.sent :=
    RunEvent.flatMap_concat ..
  have hown : stepsOf none (past ++ [e]) = stepsOf none past :=
    stepsOf_concat_of_ne (by simp [he]) past
  have hplace := hs.getElem?_forked hall
  refine ⟨fun x hx o ho => ?opened, fun name => ?tally, fun hopen => ?notices, ?kinds,
    fun x hx hx' => ?outputs, ?order, ?silent⟩
  case opened =>
    rw [hnames]
    obtain hx | hx := List.mem_append.1 hx
    · exact h.opened x hx o ho
    · rw [List.mem_singleton.1 hx] at ho ⊢
      refine ⟨t.id, he, ?_⟩
      obtain ⟨hnone, -⟩ | ⟨opening, hone, -⟩ := hm.openings hl
      · rw [hnone] at ho
        cases ho
      · rw [hone, List.mem_singleton] at ho
        rw [ho]
        exact hplace
  case tally =>
    have hput := hs.countP_putTask hall hid fun u => u.container = name && u.isOpening
    have htally := h.tally name
    rw [RunEvent.flatMap_concat, List.countP_append, hnames]
    obtain ⟨hnone, hsame⟩ | ⟨opening, hone, hbefore, hafter⟩ := hm.openings hl
    · rw [hcontainer, hsame] at hput
      rw [hnone, List.countP_nil]
      omega
    · rw [hbefore, hafter, Bool.and_true, Bool.and_false] at hput
      rw [hone, List.countP_singleton]
      simp only [Bool.false_eq_true, if_false] at hput
      dsimp only
      omega
  case notices =>
    rw [hown, RunEvent.flatMap_concat_of_nil hn]
    exact h.notices fun x hx => hopen x (List.mem_append_left _ hx)
  case kinds =>
    rw [hown]
    exact h.kinds
  case outputs =>
    obtain hx | hx := List.mem_append.1 hx
    · exact h.outputs x hx hx'
    · rw [List.mem_singleton.1 hx]
      exact fun line hline => (hsent line hline).2
  case order =>
    intro id name hget hcount
    rw [hnames] at hget hcount
    rw [hall', hown, about_append, h.order id name hget hcount, List.append_assoc]
    congr 1
    by_cases hsame : id = t.id
    · subst hsame
      rw [hplace] at hget
      cases hget
      rw [about_eq_self fun line hline => (hsent line hline).1, ← he, stepsOf_concat_self,
        RunEvent.flatMap_concat]
    · have hno : about name e.sent = [] := by
        refine about_eq_nil fun line hline heq => hsame ?_
        rw [(hsent line hline).1] at heq
        subst heq
        exact index_eq_of_count_le_one hcount hget hplace
      have hother : e.task ≠ some id := by
        rw [he]
        exact fun heq => hsame (Option.some.inj heq).symm
      rw [hno, stepsOf_concat_of_ne hother, List.append_nil]
  case silent =>
    intro name hname
    rw [hnames] at hname
    have hno : about name e.sent = [] := by
      refine about_eq_nil fun line hline heq => hname ?_
      rw [← heq, (hsent line hline).1]
      exact List.mem_of_getElem? hplace
    rw [hall', about_append, h.silent name hname, hno]
    rfl

end Run

end StepRunner
