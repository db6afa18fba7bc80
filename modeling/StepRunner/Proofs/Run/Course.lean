import StepRunner.Proofs.Run.Prospect

/-!
# The course of a step

The course of a step is its run on a quiet cluster where each log task does at once, when it is
started, all that it has to do.  There is nothing left to choose in it.  Any run of the step, on its
own or in company and under any schedule, is at some point of this course, up to what its log tasks
have still to do.  So runs of one step that are over have come to the same.

* `World.ownCallsOn`      what a run itself calls
* `World.linesAbout`      what is sent about a container
* `Course`, `course`      a point of the course, and the points by their numbers
* `Course.Met`            a run that is at a point of the course
* `Met.run`, `Met.task`   each step of the run goes on along the course
* `Hosts.exists_met`      the run is at a point of the course under every schedule
* `course_eq_of_isOver`   the course has one end
-/

namespace StepRunner

variable {σ : Type}

/-! ## sequences that come to an end -/

section

variable {α : Type} {next : α → α} {f : Nat → α}

theorem add_of_fixed (hf : ∀ n, f (n + 1) = next (f n)) {n : Nat} (h : next (f n) = f n)
    (more : Nat) : f (n + more) = f n := by
  induction more with
  | zero => rfl
  | succ more ih => rw [← Nat.add_assoc, hf, ih, h]

theorem eq_of_fixed (hf : ∀ n, f (n + 1) = next (f n)) {m n : Nat} (hm : next (f m) = f m)
    (hn : next (f n) = f n) : f m = f n := by
  rcases Nat.le_total m n with hle | hle
  · obtain ⟨more, rfl⟩ := Nat.exists_eq_add_of_le hle
    exact (add_of_fixed hf hm more).symm
  · obtain ⟨more, rfl⟩ := Nat.exists_eq_add_of_le hle
    exact add_of_fixed hf hn more

end

/-! ## what is seen of one step -/

def CallEvent.isOpened : CallEvent → Bool
  | .opened _ => true
  | _ => false

namespace World

/-- the calls on pods of a name without those that log tasks make, the oldest first -/
def ownCallsOn (name : String) (w : World σ) : List (PodRef × CallEvent) :=
  (w.callsOn name).filter fun c => !c.2.isOpened

/-- how often the log stream of a container was asked for, of pods of a name -/
def openings (name container : String) (w : World σ) : Nat :=
  (w.callsOn name).countP (·.2 = .opened container)

/-- the lines about a container that were sent for steps of a name, the oldest first -/
def linesAbout (step container : String) (w : World σ) : List LogLine :=
  (w.linesOf step).filter (·.container = container)

end World

/-! ## the course -/

/-- a point of the course: a run without log tasks, and its world -/
structure Course where
  run : Run
  world : World PacedCluster

namespace Course

/-- a run whose log tasks do at once all that they have to do -/
def absorb (config : Config) (r : Run) (w : World PacedCluster) : Course :=
  let ahead := LogTask.prospect pacedPlatform config.sanitize w.state
  { run := { r with
      timer := ⟨0, true⟩
      tasks := []
      failures := r.failures ++ r.tasks.flatMap fun t => (ahead t).failures }
    world := { w with
      calls :=
        ((r.tasks.flatMap fun t => (ahead t).calls).map fun c => ⟨w.now, c.1, c.2⟩).reverse ++
          w.calls
      channel := { w.channel with
        sent := (r.tasks.flatMap fun t => (ahead t).lines).reverse ++ w.channel.sent
        underWay := 0 } } }

/-- the next point; the last one stays -/
def next (config : Config) (build : StepDefinition → Built) (x : Course) : Course :=
  match x.run.act ⟨pacedPlatform, config, build⟩ x.world with
  | some (r, w) => absorb config r w
  | none => x

/-- A point where nothing keeps the run from its next step. -/
structure Calm (x : Course) : Prop where
  tasks : x.run.tasks = []
  timer : x.run.timer = ⟨0, true⟩
  unfired : x.world.cancelled = false
  isOpen : x.world.channel.isOpen = true
  room : x.world.channel.underWay < x.world.channel.room

variable {config : Config} {build : StepDefinition → Built} {x : Course}

theorem Calm.ready (h : x.Calm) : x.run.Ready x.world := by
  refine ⟨h.unfired, ?_, fun _ => ?_⟩
  · simp [Channel.canSend, h.room]
  · rw [h.timer]
    exact ⟨Nat.zero_le _, rfl⟩

theorem Calm.next (h : x.Calm) : (x.next config build).Calm := by
  unfold Course.next
  split
  next r w hact =>
    have ht := Run.transition_of_act hact
    refine ⟨rfl, rfl, ht.agrees.cancelled.trans h.unfired, ht.grows.1.trans h.isOpen, ?_⟩
    show 0 < w.channel.room
    rw [ht.room]
    exact Nat.zero_lt_of_lt h.room
  next => exact h

theorem next_of_isOver (h : x.run.isOver = true) : x.next config build = x := by
  have hact : x.run.act ⟨pacedPlatform, config, build⟩ x.world = none := by
    rw [Run.act_eq_none_iff]
    unfold Run.isOver at h
    unfold Run.Rests
    split at h <;> simp_all
  rw [next, hact]

end Course

/-- the points of the course of a step, from its start on a cluster -/
def course (config : Config) (build : StepDefinition → Built) (step : StepDefinition)
    (cluster : PacedCluster) : Nat → Course
  | 0 => ⟨{ step, timer := ⟨0, true⟩ }, { state := cluster }⟩
  | n + 1 => (course config build step cluster n).next config build

section

variable (config : Config) (build : StepDefinition → Built) (step : StepDefinition)
  (cluster : PacedCluster)

theorem calm_course (n : Nat) : (course config build step cluster n).Calm := by
  induction n with
  | zero => exact ⟨rfl, rfl, rfl, rfl, Nat.one_pos⟩
  | succ n ih => exact ih.next

/-- **A course has one end.** -/
theorem course_eq_of_isOver {m n : Nat}
    (hm : (course config build step cluster m).run.isOver = true)
    (hn : (course config build step cluster n).run.isOver = true) :
    course config build step cluster m = course config build step cluster n :=
  eq_of_fixed (f := course config build step cluster) (fun _ => rfl) (Course.next_of_isOver hm)
    (Course.next_of_isOver hn)

end

/-! ## at a point of the course -/

namespace Course

/-- what a log task has still to do at a point of the course -/
def ahead (config : Config) (x : Course) (t : LogTask) : Prospect :=
  t.prospect pacedPlatform config.sanitize x.world.state

/-- A run that is at a point of the course of its step: what it has done, and what its log tasks
have still to do, is what was done on the course, and in the same order as far as there is one. -/
structure Met (config : Config) (name : String) (step : StepDefinition) (r : Run)
    (w : World PacedCluster) (x : Course) : Prop where
  like : r.Like List.Perm x.run
  agree : w.state.Agree name x.world.state
  own : w.ownCallsOn name = x.world.ownCallsOn name
  calls : (w.callsOn name ++ r.tasks.flatMap fun t => (x.ahead config t).calls).Perm
    (x.world.callsOn name)
  lines : (w.linesOf step.name ++ r.tasks.flatMap fun t => (x.ahead config t).lines).Perm
    (x.world.linesOf step.name)
  failures : (r.failures ++ r.tasks.flatMap fun t => (x.ahead config t).failures).Perm
    x.run.failures
  order : ∀ container, x.world.openings name container ≤ 1 →
    (w.linesAbout step.name container ++
      r.tasks.flatMap fun t => (x.ahead config t).about container) =
        x.world.linesAbout step.name container
  crowd : ∀ container, r.tasks.countP (·.container = container) ≤ x.world.openings name container

variable {config : Config} {build : StepDefinition → Built} {name : String} {step : StepDefinition}
  {r r' q : Run} {w w' v : World PacedCluster} {x : Course}

theorem callsOn_absorb (hname : ∀ t ∈ q.tasks, t.pod.name = name) :
    (absorb config q v).world.callsOn name = v.callsOn name ++
      q.tasks.flatMap fun t => ((absorb config q v).ahead config t).calls := by
  have hcalls : (absorb config q v).world.callsOn name = _ := World.callsOn_of_append rfl name
  have hall : ∀ c ∈ q.tasks.flatMap (fun t => ((absorb config q v).ahead config t).calls),
      c.1.name = name := by
    intro c hc
    obtain ⟨t, ht, hc⟩ := List.mem_flatMap.1 hc
    rw [LogTask.eq_of_mem_calls hc]
    exact hname t ht
  rw [hcalls, List.map_map]
  congr 1
  refine Eq.trans ?_ (List.filter_eq_self.2 fun c hc => decide_eq_true (hall c hc))
  congr 1
  exact List.map_id' _

theorem linesOf_absorb (hstep : ∀ t ∈ q.tasks, t.step = step.name) :
    (absorb config q v).world.linesOf step.name = v.linesOf step.name ++
      q.tasks.flatMap fun t => ((absorb config q v).ahead config t).lines := by
  have hlines : (absorb config q v).world.linesOf step.name = _ :=
    World.linesOf_of_append rfl step.name
  have hall : ∀ line ∈ q.tasks.flatMap (fun t => ((absorb config q v).ahead config t).lines),
      line.step = step.name := by
    intro line hline
    obtain ⟨t, ht, hline⟩ := List.mem_flatMap.1 hline
    exact (LogTask.of_mem_lines hline).1.trans (hstep t ht)
  rw [hlines]
  congr 1
  exact List.filter_eq_self.2 fun line hline => decide_eq_true (hall line hline)

theorem Met.frame (h : Met config name step r w x)
    (hagree : ∀ cluster, w.state.Agree name cluster → w'.state.Agree name cluster)
    (hcalls : w'.callsOn name = w.callsOn name)
    (hlines : w'.linesOf step.name = w.linesOf step.name) : Met config name step r w' x := by
  refine ⟨h.like, hagree _ h.agree, ?_, ?_, ?_, h.failures, ?_, h.crowd⟩
  · rw [World.ownCallsOn, hcalls]
    exact h.own
  · rw [hcalls]
    exact h.calls
  · rw [hlines]
    exact h.lines
  · intro container hone
    rw [World.linesAbout, hlines]
    exact h.order container hone

theorem Met.join (h : Met config name step r w x) {task : LogTask} {tasks : List LogTask}
    (hj : Run.joinable? r.tasks = some (task, tasks)) (warnings : List Warning) :
    Met config name step { r with
      tasks
      failures := r.failures ++ if task.isPanicked then [Run.panicError task] else [] }
        (w.warn warnings) x := by
  obtain ⟨hover, -, -⟩ := Run.joinable?_spec hj
  obtain ⟨front, back, hsplit, rfl⟩ := Run.exists_split_of_joinable? hj
  have hleft : x.ahead config task =
      { failures := if task.isPanicked then [Run.panicError task] else [] } :=
    LogTask.prospect_of_isOver hover
  have hcalls := h.calls
  have hlines := h.lines
  have hfailures := h.failures
  have horder := h.order
  have hcrowd := h.crowd
  rw [hsplit] at hcalls hlines hfailures horder hcrowd
  refine ⟨{ h.like with }, h.agree, h.own, ?_, ?_, ?_, ?_, ?_⟩
  · have hcalls := perm_of_join hcalls
    rw [hleft, List.append_nil] at hcalls
    exact hcalls
  · have hlines := perm_of_join hlines
    rw [hleft, List.append_nil] at hlines
    exact hlines
  · have hfailures := perm_of_join hfailures
    rw [hleft] at hfailures
    exact hfailures
  · intro container hone
    have horder := horder container hone
    rw [List.flatMap_append, List.flatMap_cons, hleft] at horder
    show _ ++ (front ++ back).flatMap _ = _
    rw [List.flatMap_append]
    exact horder
  · intro container
    refine Nat.le_trans ?_ (hcrowd container)
    rw [List.countP_append, List.countP_append, List.countP_cons]
    omega

/-- what a log task does it has not to do any more -/
theorem Met.advance (h : Met config name step r w x) {t u : LogTask} {front back : List LogTask}
    (hsplit : r.tasks = front ++ t :: back) (hu : u.container = t.container)
    {calls : List (PodRef × CallEvent)} {lines : List LogLine} {failures : List RunError}
    (hpcalls : (x.ahead config t).calls = calls ++ (x.ahead config u).calls)
    (hplines : (x.ahead config t).lines = lines ++ (x.ahead config u).lines)
    (hpfailures : (x.ahead config t).failures = failures ++ (x.ahead config u).failures)
    (hcalls : w'.callsOn name = w.callsOn name ++ calls)
    (hlines : w'.linesOf step.name = w.linesOf step.name ++ lines)
    (hagree : w'.state.Agree name x.world.state) :
    Met config name step { r with tasks := front ++ u :: back, failures := r.failures ++ failures }
      w' x := by
  have hcalls₀ := h.calls
  have hlines₀ := h.lines
  have hfailures₀ := h.failures
  have horder₀ := h.order
  have hcrowd₀ := h.crowd
  rw [hsplit] at hcalls₀ hlines₀ hfailures₀ horder₀ hcrowd₀
  refine ⟨{ h.like with }, hagree, ?_, ?_, ?_, perm_of_advance hfailures₀ hpfailures, ?_, ?_⟩
  · have hopened : calls.filter (fun c => !c.2.isOpened) = [] := by
      rw [List.filter_eq_nil_iff]
      intro c hc
      have hcall : c ∈ (x.ahead config t).calls := by
        rw [hpcalls]
        exact List.mem_append_left _ hc
      rw [LogTask.eq_of_mem_calls hcall]
      simp [CallEvent.isOpened]
    rw [World.ownCallsOn, hcalls, List.filter_append, hopened, List.append_nil]
    exact h.own
  · rw [hcalls]
    exact perm_of_advance hcalls₀ hpcalls
  · rw [hlines]
    exact perm_of_advance hlines₀ hplines
  · intro container hone
    rw [World.linesAbout, hlines, List.filter_append]
    refine eq_of_advance (horder₀ container hone) ?_ fun hsome => ?_
    · rw [Prospect.about, hplines, List.filter_append]
      rfl
    · -- the only log task of the container is this one
      obtain ⟨line, hline⟩ := List.exists_mem_of_ne_nil _ hsome
      obtain ⟨hline, hcontainer⟩ := List.mem_filter.1 hline
      have hown : t.container = container := by
        rw [← (LogTask.of_mem_lines (hplines ▸ List.mem_append_left _ hline)).2]
        exact of_decide_eq_true hcontainer
      have hcount := Nat.le_trans (hcrowd₀ container) hone
      rw [List.countP_append, List.countP_cons, if_pos (decide_eq_true hown)] at hcount
      exact LogTask.flatMap_about_eq_nil (by omega)
  · intro container
    refine Nat.le_trans (Nat.le_of_eq ?_) (hcrowd₀ container)
    rw [List.countP_append, List.countP_append, List.countP_cons, List.countP_cons, hu]

theorem Met.task (h : Met config name step r w x)
    (hgrown : r.Grown ⟨pacedPlatform, config, build⟩ step)
    (hown : ∀ spec, build step = .spec spec → spec.name = name) {id : Nat}
    (hmade : r.actTask ⟨pacedPlatform, config, build⟩ id w = some (r', w'))
    (hopen : w.channel.isOpen = true) : Met config name step r' w' x := by
  obtain ⟨t, result, hfind, ht, rfl, rfl⟩ := Run.transition_of_actTask hmade
  have hmem := List.mem_of_find?_eq_some hfind
  obtain ⟨hstep, spec, hspec, hpod⟩ := hgrown.task hmem
  have hname : t.pod.name = name := by
    rw [hpod]
    exact hown spec (hgrown.built hspec)
  obtain ⟨front, back, hsplit, hput⟩ := hgrown.exists_split hmem
  obtain ⟨hid, -, hcontainer, -⟩ := ht.outputs (e := ⟨none, r, w, r, result.world⟩) rfl
  obtain ⟨events, lines, hcalls, hsent, hpcalls, hplines, hpfailures⟩ :=
    LogTask.prospect_of_transition ht hopen ((hname.symm ▸ h.agree).openLogs t.container)
  have hcalls : result.world.callsOn name = w.callsOn name ++ events.map (t.pod, ·) := by
    rw [World.callsOn_of_append hcalls, List.map_map]
    congr 1
    refine List.filter_eq_self.2 fun c hc => decide_eq_true ?_
    have hcall : c ∈ (x.ahead config t).calls := by
      rw [show (x.ahead config t).calls = _ from hpcalls]
      exact List.mem_append_left _ hc
    rw [LogTask.eq_of_mem_calls hcall]
    exact hname
  have hlines : result.world.linesOf step.name = w.linesOf step.name ++ lines := by
    rw [World.linesOf_of_append hsent]
    congr 1
    refine List.filter_eq_self.2 fun line hline => decide_eq_true ?_
    rw [(LogTask.of_mem_lines (hplines ▸ List.mem_append_left _ hline)).1]
    exact hstep
  rw [hput result.task hid]
  refine h.advance hsplit hcontainer hpcalls hplines hpfailures hcalls hlines ?_
  rw [ht.state_eq Platform.steady_paced]
  exact h.agree

/-- at the next point, the log tasks that were started have done what the run has still to do -/
theorem Met.fork (h : Met config name step r w x) {y : Course} {new : List LogTask}
    {calls : List (PodRef × CallEvent)} {lines : List LogLine} (hlike : r'.Like List.Perm y.run)
    (hagree : w'.state.Agree name y.world.state) (hnew : r'.tasks = r.tasks ++ new)
    (hfailures : r'.failures = r.failures) (hcalls : w'.callsOn name = w.callsOn name ++ calls)
    (hlines : w'.linesOf step.name = w.linesOf step.name ++ lines)
    (hycalls : y.world.callsOn name =
      x.world.callsOn name ++ calls ++ new.flatMap fun t => (y.ahead config t).calls)
    (hylines : y.world.linesOf step.name =
      x.world.linesOf step.name ++ lines ++ new.flatMap fun t => (y.ahead config t).lines)
    (hyfailures : y.run.failures =
      x.run.failures ++ new.flatMap fun t => (y.ahead config t).failures)
    (hahead : ∀ t ∈ r.tasks, y.ahead config t = x.ahead config t)
    (hopening : ∀ t ∈ new, t.isOpening = true)
    (hsent : ∀ line ∈ lines, ∃ t ∈ new, t.container = line.container) :
    Met config name step r' w' y := by
  have hopened : (new.flatMap fun t => (y.ahead config t).calls) =
      new.map fun t => (t.pod, .opened t.container) := LogTask.flatMap_calls hopening
  have hcount (container : String) : x.world.openings name container +
      new.countP (·.container = container) ≤ y.world.openings name container := by
    have hforked : (new.map fun t => (t.pod, CallEvent.opened t.container)).countP
        (·.2 = .opened container) = new.countP (·.container = container) := by
      rw [List.countP_map]
      refine List.countP_congr fun t _ => ?_
      simp
    rw [World.openings, World.openings, hycalls, hopened, List.countP_append, List.countP_append,
      hforked]
    omega
  refine ⟨hlike, hagree, ?_, ?_, ?_, ?_, ?_, ?_⟩
  · have hown : (new.map fun t => (t.pod, CallEvent.opened t.container)).filter
        (fun c => !c.2.isOpened) = [] := by
      rw [List.filter_eq_nil_iff]
      intro c hc
      obtain ⟨t, -, rfl⟩ := List.mem_map.1 hc
      simp [CallEvent.isOpened]
    have hbefore := h.own
    rw [World.ownCallsOn, World.ownCallsOn] at hbefore ⊢
    rw [hcalls, hycalls, hopened, List.filter_append, List.filter_append, List.filter_append, hown,
      hbefore, List.append_nil]
  · rw [hcalls, hycalls, hnew]
    exact perm_of_fork h.calls (fun t ht => by rw [hahead t ht]) calls new
  · rw [hlines, hylines, hnew]
    exact perm_of_fork h.lines (fun t ht => by rw [hahead t ht]) lines new
  · rw [hfailures, hyfailures, hnew]
    rw [← List.append_nil r.failures, ← List.append_nil x.run.failures]
    exact perm_of_fork h.failures (fun t ht => by rw [hahead t ht]) [] new
  · intro container hone
    have hcount := hcount container
    rw [World.linesAbout, World.linesAbout, hlines, hylines, hnew, List.filter_append,
      List.filter_append, List.filter_append, List.filter_flatMap]
    refine eq_of_fork (h.order container (by omega)) (fun t ht => by rw [hahead t ht])
      (fun hsome => ?_) new
    -- a notice about the container stands before all its output
    obtain ⟨line, hline⟩ := List.exists_mem_of_ne_nil _ hsome
    obtain ⟨hline, hcontainer⟩ := List.mem_filter.1 hline
    obtain ⟨t, ht, habout⟩ := hsent line hline
    have hpos : 0 < new.countP (·.container = container) :=
      List.countP_pos_iff.2 ⟨t, ht, by rw [habout]; exact hcontainer⟩
    have hcrowd := h.crowd container
    exact LogTask.flatMap_about_eq_nil (by omega)
  · intro container
    rw [hnew, List.countP_append]
    exact Nat.le_trans (Nat.add_le_add_right (h.crowd container) _) (hcount container)

theorem Met.follow (h : Met config name step r w x)
    (hgrown : r.Grown ⟨pacedPlatform, config, build⟩ step) (hx : x.run.tasks = [])
    (hown : ∀ spec, build step = .spec spec → spec.name = name)
    (hact : r.act ⟨pacedPlatform, config, build⟩ w = some (r', w'))
    (hopen : w.channel.isOpen = true) (hopen' : x.world.channel.isOpen = true)
    (hf : Run.Followed List.Perm ⟨pacedPlatform, config, build⟩ (PacedCluster.Agree name)
      ⟨none, r, w, r', w'⟩ ⟨none, x.run, x.world, q, v⟩) :
    Met config name step r' w' (absorb config q v) := by
  obtain ⟨hfollow, hlike, hagree⟩ := hf
  obtain ⟨⟨new, new', hnew, hnew', htasks⟩, hleft, hright⟩ := hlike.forked
  dsimp only at hfollow hagree hnew hnew' hleft hright
  rw [hx, List.nil_append] at hnew'
  have hv : RunEvent.Valid ⟨pacedPlatform, config, build⟩ ⟨none, r, w, r', w'⟩ := hact
  have hv' : RunEvent.Valid ⟨pacedPlatform, config, build⟩ ⟨none, x.run, x.world, q, v⟩ := hfollow
  have hgrown' : r'.Grown ⟨pacedPlatform, config, build⟩ step := hgrown.event hv
  obtain ⟨hbegun, hsent⟩ := Run.new_of_act (e := ⟨none, r, w, r', w'⟩) hact hnew
  have hopening : ∀ t ∈ new, t.isOpening = true := fun t ht => by
    rw [LogTask.isOpening, hbegun t ht]
  have hnamed : ∀ t ∈ r'.tasks, t.step = step.name ∧ t.pod.name = name := by
    intro t ht
    obtain ⟨hstep, spec, hspec, hpod⟩ := hgrown'.task ht
    exact ⟨hstep, by rw [hpod]; exact hown spec (hgrown'.built hspec)⟩
  have hnamed' : ∀ u ∈ q.tasks, u.step = step.name ∧ u.pod.name = name := by
    intro u hu
    obtain ⟨t, ht, htu⟩ := LogTask.exists_like_of_mem htasks (hnew' ▸ hu)
    rw [← htu.step, ← htu.pod]
    exact hnamed t (by rw [hnew]; exact List.mem_append_right _ ht)
  refine h.fork { hlike.after with } hagree hnew hleft (RunEvent.callsOn_left hv name)
    (RunEvent.linesOf_left hv step.name) ?_ ?_ ?_ ?_ hopening ?_
  · have hcalls' : v.callsOn name = _ := RunEvent.callsOn_left hv' name
    rw [callsOn_absorb fun t ht => (hnamed' t ht).2, hcalls', hnew', ← hlike.deeds]
    congr 1
    exact (LogTask.flatMap_prospect_like htasks Prospect.calls).symm
  · have hlines' : v.linesOf step.name = _ := RunEvent.linesOf_left hv' step.name
    rw [linesOf_absorb fun t ht => (hnamed' t ht).1, hlines', hnew', ← hlike.sent hopen hopen']
    congr 1
    exact (LogTask.flatMap_prospect_like htasks Prospect.lines).symm
  · show q.failures ++ q.tasks.flatMap _ = _
    rw [hright, hnew']
    congr 1
    exact (LogTask.flatMap_prospect_like htasks Prospect.failures).symm
  · intro t ht
    obtain ⟨-, hname⟩ := hnamed t (by rw [hnew]; exact List.mem_append_left _ ht)
    have hbefore := (hname.symm ▸ h.agree).openLogs t.container
    have hafter := (hname.symm ▸ hagree).openLogs t.container
    obtain ⟨hsame, -⟩ := (Run.transition_of_act hact).openLogs_eq Platform.steady_paced
      (hgrown.streamed ht) t.pod t.container
    exact LogTask.prospect_congr (hafter.symm.trans (hsame.trans hbefore))
  · intro line hline
    exact hsent line (List.mem_of_mem_filter hline)

/-- **Each step of a run goes on along the course**, or leaves it where it is. -/
theorem Met.run (h : Met config name step r w x) (hx : x.Calm)
    (hgrown : r.Grown ⟨pacedPlatform, config, build⟩ step)
    (hown : ∀ spec, build step = .spec spec → spec.name = name)
    (hact : r.act ⟨pacedPlatform, config, build⟩ w = some (r', w'))
    (hunfired : w.cancelled = false) (hopen : w.channel.isOpen = true) :
    Met config name step r' w' x ∨ Met config name step r' w' (x.next config build) := by
  have hname (spec : PodSpec) (hs : r.spec? = some spec) : spec.name = name :=
    hown spec (hgrown.built hs)
  cases Run.leads_of_act (E := List.Perm) hact hunfired (Platform.alike_paced name) hname with
  | asked _ _ ha hl =>
    dsimp only at ha hl
    subst ha hl
    exact .inl { h with like := { h.like with } }
  | joined hp hj ha hl =>
    obtain ⟨warnings, hl⟩ := hl
    dsimp only at ha hl
    subst ha hl
    exact .inl (h.join hj warnings)
  | step _ hfollow =>
    have hjoined (hnil : r.tasks = []) : x.run.tasks = [] ∧ r.failures.Perm x.run.failures ∧
        (r.failures = [] ↔ x.run.failures = []) := by
      have hfailures := h.failures
      rw [hnil, List.flatMap_nil, List.append_nil] at hfailures
      refine ⟨hx.tasks, hfailures, ?_⟩
      rw [← List.length_eq_zero_iff, ← List.length_eq_zero_iff, hfailures.length_eq]
    obtain ⟨q, v, hf⟩ := hfollow x.run x.world h.like hx.ready h.agree hjoined
    have hnext : x.next config build = absorb config q v := by
      have hact' : x.run.act ⟨pacedPlatform, config, build⟩ x.world = some (q, v) := hf.act
      rw [next, hact']
    rw [hnext]
    exact .inr (h.follow hgrown hx.tasks hown hact hopen hx.isOpen hf)

/-- where there are no log tasks left, all is done that was done on the course -/
theorem Met.of_no_tasks (h : Met config name step r w x) (ht : r.tasks = []) :
    (w.callsOn name).Perm (x.world.callsOn name) ∧
      (w.linesOf step.name).Perm (x.world.linesOf step.name) ∧
      ∀ container, x.world.openings name container ≤ 1 →
        w.linesAbout step.name container = x.world.linesAbout step.name container := by
  have hcalls := h.calls
  have hlines := h.lines
  have horder := h.order
  simp only [ht, List.flatMap_nil, List.append_nil] at hcalls hlines horder
  exact ⟨hcalls, hlines, horder⟩

theorem met_begin (config : Config) (build : StepDefinition → Built) (name : String)
    (step : StepDefinition) {cluster : PacedCluster} (hagree : w.state.Agree name cluster)
    (hcalls : w.callsOn name = []) (hlines : w.linesOf step.name = []) :
    Met config name step { step } w (course config build step cluster 0) := by
  refine ⟨⟨rfl, rfl, rfl, .start⟩, hagree, ?_, ?_, ?_, .nil, ?_, fun _ => Nat.zero_le _⟩
  · rw [World.ownCallsOn, hcalls]
    rfl
  · rw [hcalls]
    exact .nil
  · rw [hlines]
    exact .nil
  · intro container _
    rw [World.linesAbout, hlines]
    rfl

end Course

namespace Crew

variable {config : Config} {build : StepDefinition → Built} {name : String} {step : StepDefinition}
  {i n : Nat} {c : Crew PacedCluster} {r : Run} {cluster : PacedCluster}

/-- **A run is at a point of the course of its step under every schedule.** -/
theorem Hosts.exists_met (h : c.Hosts ⟨pacedPlatform, config, build⟩ step name i)
    (hown : ∀ spec, build step = .spec spec → spec.name = name) (hr : c.runs[i]? = some r)
    (hmet : Course.Met config name step r c.world (course config build step cluster n))
    (moves : List Move) :
    ∃ r' n', (c.play ⟨pacedPlatform, config, build⟩ moves).runs[i]? = some r' ∧
      Course.Met config name step r' (c.play ⟨pacedPlatform, config, build⟩ moves).world
        (course config build step cluster n') := by
  induction moves generalizing c r n with
  | nil => exact ⟨r, n, hr, hmet⟩
  | cons m moves ih =>
    obtain ⟨hr', hagree, hcalls, hlines⟩ |
      ⟨e, hv, rfl, hseen, hgrown, hunfired, hopen, hr', hsame⟩ := h.move_view hr m
    · exact ih (h.move m) hr' (hmet.frame hagree hcalls hlines)
    · rw [← hseen] at hmet
      have hstep : ∃ n', Course.Met config name step e.after e.left
          (course config build step cluster n') := by
        unfold RunEvent.Valid at hv
        split at hv
        · obtain hmet' | hmet' := hmet.run (calm_course config build step cluster n) hgrown hown hv
            hunfired hopen
          · exact ⟨n, hmet'⟩
          · exact ⟨n + 1, hmet'⟩
        · exact ⟨n, hmet.task hgrown hown hv hopen⟩
      obtain ⟨n', hmet'⟩ := hstep
      refine ih (h.move m) hr' (hmet'.frame (fun _ hagree => ?_) (hsame.callsOn name)
        (hsame.linesOf step.name))
      rw [hsame.state]
      exact hagree

end Crew

end StepRunner
