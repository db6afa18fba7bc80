import StepRunner.Proofs.Run.Results
import StepRunner.Proofs.Run.Twins

/-!
# A run in company

What the runs of other steps can do to one of them on a scripted cluster: if their pods have other
names than its own, and their steps too, then nothing of what it sees, calls and sends is touched.

* `World.callsOn`, `World.linesOf`   what was called on a pod, and what was sent for a step
* `Run.Grown`                        a run that has come to where it is from its start
* `Transition.agree_of_other`        what is called on another pod does not matter
* `Crew.Hosts`                       a run among others with other pods and other names
* `Hosts.play`                       it stays among them, under every schedule
* `Hosts.frame`                      what the others do leaves it alone
* `Hosts.move_view`                  so a move makes it take a step, or leaves it as it is
-/

namespace StepRunner

variable {σ : Type}

/-! ## what is seen of one step -/

namespace World

/-- the calls on pods of a name so far, the oldest first, apart from their times -/
def callsOn (name : String) (w : World σ) : List (PodRef × CallEvent) :=
  ((w.calls.filter (·.pod.name = name)).map fun c => (c.pod, c.event)).reverse

/-- the lines that were sent for steps of a name so far, the oldest first -/
def linesOf (step : String) (w : World σ) : List LogLine :=
  w.channel.delivered.filter (·.step = step)

variable {w w' : World σ} {name step : String}

theorem SameRecord.callsOn (h : w.SameRecord w') (name : String) :
    w.callsOn name = w'.callsOn name := by
  rw [World.callsOn, World.callsOn, h.calls]

theorem SameRecord.linesOf (h : w.SameRecord w') (step : String) :
    w.linesOf step = w'.linesOf step := by
  rw [World.linesOf, World.linesOf, Channel.delivered, Channel.delivered, h.sent]

theorem callsOn_of_append {made : List CallRecord} (h : w'.calls = made.reverse ++ w.calls)
    (name : String) :
    w'.callsOn name = w.callsOn name ++
      (made.map fun c => (c.pod, c.event)).filter (·.1.name = name) := by
  have hmade : (made.map fun c => (c.pod, c.event)).filter (·.1.name = name) =
      (made.filter (·.pod.name = name)).map fun c => (c.pod, c.event) := List.filter_map
  rw [hmade, callsOn, callsOn, h, List.filter_append, List.map_append, List.reverse_append,
    List.filter_reverse, List.map_reverse, List.reverse_reverse]

theorem linesOf_of_append {lines : List LogLine}
    (h : w'.channel.sent = lines.reverse ++ w.channel.sent) (step : String) :
    w'.linesOf step = w.linesOf step ++ lines.filter (·.step = step) := by
  rw [linesOf, linesOf, Channel.delivered, Channel.delivered, h, List.reverse_append,
    List.reverse_reverse, List.filter_append]

end World

theorem Run.Transition.calls_grow {setup : Setup σ} {r r' : Run} {w w' : World σ}
    (h : Transition setup r w r' w') :
    ∃ made, w'.calls = made ++ w.calls ∧ ∀ c ∈ made, c.time = w.now := by
  have hcall (pod : PodRef) (event : CallEvent) : ∀ c ∈ [(⟨w.now, pod, event⟩ : CallRecord)],
      c.time = w.now := List.forall_mem_singleton.2 rfl
  cases h with
  | cancelledEarly | buildPanicked | buildRefused | built | asked | cancelled | announced
  | joinedPanicked | joined => exact ⟨[], rfl, by simp⟩
  | joinedAll => split <;> exact ⟨[], rfl, by simp⟩
  | created => split <;> exact ⟨[_], rfl, hcall _ _⟩
  | createRefused | streamingLook | streamingAgain | finishingLook | finishingAgain
  | deleteRefused | deleted => exact ⟨[_], rfl, hcall _ _⟩

namespace RunEvent

variable {setup : Setup σ} {e : RunEvent σ}

theorem calls_grow (hv : e.Valid setup) :
    ∃ made, e.left.calls = made ++ e.seen.calls ∧ ∀ c ∈ made, c.time = e.seen.now := by
  unfold Valid at hv
  split at hv
  · exact (Run.transition_of_act hv).calls_grow
  · obtain ⟨t, result, -, ht, hleft, -⟩ := Run.transition_of_actTask hv
    rw [hleft]
    obtain hcalls | hcalls := ht.calls.2
    · exact ⟨[], hcalls, by simp⟩
    · exact ⟨[_], hcalls, List.forall_mem_singleton.2 rfl⟩

theorem calls_left (hv : e.Valid setup) : e.left.calls = e.calls.reverse ++ e.seen.calls := by
  obtain ⟨made, hmade, -⟩ := calls_grow hv
  rw [calls_of_append made hmade, List.reverse_reverse, hmade]

theorem calls_eq_deeds (hv : e.Valid setup) :
    e.calls = e.deeds.map fun c => ⟨e.seen.now, c.1, c.2⟩ := by
  obtain ⟨made, hmade, htime⟩ := calls_grow hv
  rw [deeds, calls_of_append made hmade, List.map_map]
  refine ((List.map_congr_left fun c hc => ?_).trans (List.map_id' _)).symm
  show (⟨e.seen.now, c.pod, c.event⟩ : CallRecord) = c
  rw [← htime c (List.mem_reverse.1 hc)]

theorem Like.calls_eq {E : FailuresLike} {e' : RunEvent σ} (h : e.Like E e') (hv : e.Valid setup)
    (hv' : e'.Valid setup) (hnow : e.seen.now = e'.seen.now) : e.calls = e'.calls := by
  rw [calls_eq_deeds hv, calls_eq_deeds hv', h.deeds, hnow]

theorem callsOn_left (hv : e.Valid setup) (name : String) :
    e.left.callsOn name = e.seen.callsOn name ++ e.deeds.filter (·.1.name = name) :=
  World.callsOn_of_append (calls_left hv) name

theorem sent_left (hv : e.Valid setup) :
    e.left.channel.sent = e.sent.reverse ++ e.seen.channel.sent := by
  have hgrows : e.seen.channel.Grows e.left.channel := by
    unfold Valid at hv
    split at hv
    · exact (Run.transition_of_act hv).grows
    · obtain ⟨t, result, -, ht, hleft, -⟩ := Run.transition_of_actTask hv
      rw [hleft]
      exact ht.grows
  obtain ⟨-, lines, hlines⟩ := hgrows
  rw [sent_of_append lines hlines, List.reverse_reverse, hlines]

theorem linesOf_left (hv : e.Valid setup) (step : String) :
    e.left.linesOf step = e.seen.linesOf step ++ e.sent.filter (·.step = step) :=
  World.linesOf_of_append (sent_left hv) step

end RunEvent

/-! ## a run from its start -/

namespace Run

/-- a run of a step that has come to where it is from its start -/
structure Grown (setup : Setup σ) (step : StepDefinition) (r : Run) : Prop where
  conforms : ∃ calls, r.Conforms setup step calls
  thrifty : ∃ past, r.Thrifty setup past

variable {setup : Setup σ} {step : StepDefinition} {r : Run} {e : RunEvent σ}

theorem grown_begin (setup : Setup σ) (step : StepDefinition) : Grown setup step { step } :=
  ⟨⟨[], conforms_begin setup step⟩, [], [], staff_begin rfl rfl, by simp⟩

theorem Grown.event (h : Grown setup step e.before) (hv : e.Valid setup) :
    Grown setup step e.after := by
  obtain ⟨⟨calls, hconf⟩, past, hthrifty⟩ := h
  exact ⟨⟨_, (hconf.event hv).2⟩, _, hthrifty.event hv⟩

theorem Grown.step_eq (h : Grown setup step r) : r.step = step := by
  obtain ⟨⟨calls, hconf⟩, -⟩ := h
  exact hconf.same

theorem Grown.built (h : Grown setup step r) {spec : PodSpec} (hs : r.spec? = some spec) :
    setup.build step = .spec spec := by
  obtain ⟨⟨calls, hconf⟩, -⟩ := h
  have hcalls := hconf.calls
  unfold spec? at hs
  split at hs
  case h_7 => cases hs
  all_goals
    next hp =>
    cases hs
    rw [hp] at hcalls
    exact hcalls.1

theorem spec?_of_streamed? {spec : PodSpec} (h : r.streamed? = some spec) :
    r.spec? = some spec := by
  unfold streamed? at h
  unfold spec?
  split at h <;> simp_all

theorem Grown.task (h : Grown setup step r) {t : LogTask} (ht : t ∈ r.tasks) :
    t.step = step.name ∧ ∃ spec, r.spec? = some spec ∧ t.pod = spec.ref := by
  have hstep := h.step_eq
  obtain ⟨⟨calls, hconf⟩, past, all, hstaff, -⟩ := h
  obtain ⟨spec, hs, hpod⟩ := hconf.tidy.tasks t ht
  exact ⟨(hstaff.step t (hstaff.live.subset ht)).trans (congrArg StepDefinition.name hstep), spec,
    spec?_of_streamed? hs, hpod⟩

/-- only while logs are streamed are there log tasks -/
theorem Grown.streamed (h : Grown setup step r) {t : LogTask} (ht : t ∈ r.tasks) :
    r.streamed? ≠ none := by
  obtain ⟨⟨calls, hconf⟩, -⟩ := h
  obtain ⟨spec, hspec, -⟩ := hconf.tidy.tasks t ht
  simp [hspec]

theorem Grown.tasks_of_isOver (h : Grown setup step r) (hover : r.isOver = true) :
    r.tasks = [] := by
  obtain ⟨⟨calls, hconf⟩, -⟩ := h
  exact hconf.tidy.tasks_of_isOver hover

theorem Grown.eq_of_id (h : Grown setup step r) {t u : LogTask} (ht : t ∈ r.tasks)
    (hu : u ∈ r.tasks) (hid : u.id = t.id) : u = t := by
  obtain ⟨-, past, all, hstaff, -⟩ := h
  exact hstaff.eq_of_id (hstaff.live.subset ht) (hstaff.live.subset hu) hid

theorem Conforms.pod {calls : List CallRecord} (h : Conforms setup step calls r) {c : CallRecord}
    (hc : c ∈ calls) : ∃ spec, setup.build step = .spec spec ∧ c.pod = spec.ref := by
  have huse {spec : PodSpec} (hfit : setup.build step = .spec spec ∧ InUse spec.ref calls) :
      ∃ spec, setup.build step = .spec spec ∧ c.pod = spec.ref := by
    obtain ⟨hb, time, looks, rfl, hlooks⟩ := hfit
    refine ⟨spec, hb, ?_⟩
    obtain rfl | hc := List.mem_cons.1 hc
    · rfl
    · exact (hlooks c hc).1
  have hlife {last : Phase} (hfit : Lifecycle (setup.build step) calls last) :
      ∃ spec, setup.build step = .spec spec ∧ c.pod = spec.ref := by
    cases hfit with
    | untouched => cases hc
    | refused hb =>
      obtain rfl := List.mem_singleton.1 hc
      exact ⟨_, hb, rfl⟩
    | whole hb time looks hlooks =>
      refine ⟨_, hb, ?_⟩
      obtain rfl | hc := List.mem_cons.1 hc
      · rfl
      · obtain hc | hc := List.mem_append.1 hc
        · exact (hlooks c hc).1
        · rw [List.mem_singleton.1 hc]
  have hcalls := h.calls
  unfold CallsFit at hcalls
  split at hcalls
  · rw [hcalls] at hc
    cases hc
  · rw [hcalls.2] at hc
    cases hc
  all_goals first
    | exact huse hcalls
    | exact hlife hcalls

theorem Grown.pod_of_calls (h : Grown setup step e.before) (hv : e.Valid setup) :
    ∀ c ∈ e.calls, ∃ spec, setup.build step = .spec spec ∧ c.pod = spec.ref := by
  obtain ⟨⟨calls, hconf⟩, -⟩ := h
  exact fun c hc => (hconf.event hv).2.pod (List.mem_append_right _ hc)

theorem Grown.step_of_sent (h : Grown setup step e.before) (hv : e.Valid setup)
    (hopen : e.seen.channel.isOpen = true) : ∀ line ∈ e.sent, line.step = step.name := by
  have hquiet (hc : e.left.channel = e.seen.channel) : ∀ line ∈ e.sent, line.step = step.name := by
    rw [RunEvent.sent_of_same hc]
    simp
  unfold RunEvent.Valid at hv
  split at hv
  · obtain ⟨new, hforks⟩ := forks_of_transition (transition_of_act hv)
    rw [hforks.noticed hopen]
    intro line hline
    obtain ⟨container, -, rfl⟩ := List.mem_map.1 hline
    exact congrArg StepDefinition.name h.step_eq
  · obtain ⟨t, result, hfind, ht, hleft, -⟩ := transition_of_actTask hv
    have hstep := (h.task (List.mem_of_find?_eq_some hfind)).1
    cases ht with
    | asked | openPanicked | openRefused | opened | read | stopped =>
      exact hquiet (by rw [hleft]; rfl)
    | closed => exact hquiet (by rw [hleft]; exact (LogTask.close_task ..).2.2)
    | sent =>
      rw [RunEvent.sent_of_open hopen (by rw [hleft]; rfl)]
      exact List.forall_mem_singleton.2 hstep

/-! ## what others do -/

variable {config : Config} {build : StepDefinition → Built} {name : String} {r' : Run}
  {w w' : World PacedCluster} {cluster : PacedCluster}

/-- what is called on another pod does not matter -/
theorem Transition.agree_of_other (ht : Transition ⟨pacedPlatform, config, build⟩ r w r' w')
    (hne : ∀ spec, r.spec? = some spec → spec.name ≠ name) (h : w.state.Agree name cluster) :
    w'.state.Agree name cluster := by
  cases ht with
  | cancelledEarly | buildPanicked | buildRefused | built | asked | cancelled | announced
  | joinedPanicked | joined => exact h
  | @createRefused spec _ state hp _ ha =>
    have hcreate := h.frame_create (hne spec (by simp only [spec?, hp]))
    rw [show pacedPlatform.create spec w.state = _ from ha] at hcreate
    exact hcreate
  | @created spec identity state hp _ ha =>
    have hcreate := h.frame_create (hne spec (by simp only [spec?, hp]))
    rw [show pacedPlatform.create spec w.state = _ from ha] at hcreate
    split <;> exact hcreate
  | @streamingLook spec _ _ _ _ hp | @streamingAgain spec _ _ _ hp
  | @finishingLook spec _ _ _ _ hp | @finishingAgain spec _ _ _ hp =>
    exact h.frame_fetch spec.ref (hne spec (by simp only [spec?, hp]))
  | joinedAll => split <;> exact h
  | @deleteRefused spec _ _ _ hp _ ha | @deleted spec _ _ hp _ ha =>
    have hdelete := h.frame_delete spec.ref (hne spec (by simp only [spec?, hp]))
    rw [show pacedPlatform.delete spec.ref w.state = _ from ha] at hdelete
    exact hdelete

end Run

namespace Crew

/-! ## a run among others -/

/-- Run `i` of a crew is the run of `step`, whose pod is called `name`; the other steps and their
pods have other names.  The token is not fired, and the reader is there. -/
structure Hosts (setup : Setup σ) (step : StepDefinition) (name : String) (i : Nat) (c : Crew σ) :
    Prop where
  run : ∃ r, c.runs[i]? = some r ∧ r.Grown setup step
  others : ∀ k s, k ≠ i → c.runs[k]? = some s → ∃ step', s.Grown setup step' ∧
    step'.name ≠ step.name ∧ ∀ spec, setup.build step' = .spec spec → spec.name ≠ name
  unarmed : c.Unarmed
  isOpen : c.world.channel.isOpen = true
  room : 0 < c.world.channel.room

section

variable {setup : Setup σ} {step : StepDefinition} {name : String} {i : Nat} {c : Crew σ}

theorem Hosts.move (h : c.Hosts setup step name i) (m : Move) :
    (c.move setup m).Hosts setup step name i := by
  have hunarmed : (c.move setup m).Unarmed := h.unarmed.move m
  have hopen := (grows_move setup c m).1.trans h.isOpen
  have hroom : 0 < (c.move setup m).world.channel.room := by
    rw [room_move]
    exact h.room
  obtain ⟨r, hr, hgrown⟩ := h.run
  obtain ⟨-, hruns, -⟩ | ⟨k, e, hk, -, hv, -, -, hruns, -⟩ := move_cases setup c m
  · refine ⟨⟨r, ?_, hgrown⟩, fun k s hki hs => h.others k s hki ?_, hunarmed, hopen, hroom⟩
    · rw [hruns]
      exact hr
    · rw [← hruns]
      exact hs
  · have hset : (c.runs.set k e.after)[k]? = some e.after :=
      List.getElem?_set_self (List.getElem?_eq_some_iff.1 hk).1
    refine ⟨?_, fun j s hji hs => ?_, hunarmed, hopen, hroom⟩
    · rw [hruns]
      by_cases hki : k = i
      · subst hki
        obtain rfl : r = e.before := Option.some.inj (hr.symm.trans hk)
        exact ⟨e.after, hset, hgrown.event hv⟩
      · exact ⟨r, (List.getElem?_set_ne hki).trans hr, hgrown⟩
    · rw [hruns] at hs
      by_cases hkj : k = j
      · subst hkj
        obtain ⟨step', hgrown', hne⟩ := h.others k e.before hji hk
        obtain rfl : s = e.after := Option.some.inj (hs.symm.trans hset)
        exact ⟨step', hgrown'.event hv, hne⟩
      · rw [List.getElem?_set_ne hkj] at hs
        exact h.others j s hji hs

theorem Hosts.play (h : c.Hosts setup step name i) (moves : List Move) :
    (c.play setup moves).Hosts setup step name i := by
  induction moves generalizing c with
  | nil => exact h
  | cons m moves ih => exact ih (h.move m)

end

variable {config : Config} {build : StepDefinition → Built} {step : StepDefinition}
  {name : String} {i : Nat} {c : Crew PacedCluster} {m : Move}

/-- **What the others do leaves a run alone**: its pod on the cluster and what waits for it, the
calls on it, and the lines of its step. -/
theorem Hosts.frame (h : c.Hosts ⟨pacedPlatform, config, build⟩ step name i)
    (hnone : c.event? ⟨pacedPlatform, config, build⟩ i m = none) :
    let next := c.move ⟨pacedPlatform, config, build⟩ m
    (∀ cluster, c.world.state.Agree name cluster → next.world.state.Agree name cluster) ∧
      next.world.callsOn name = c.world.callsOn name ∧
      next.world.linesOf step.name = c.world.linesOf step.name := by
  intro next
  obtain ⟨-, -, hsame⟩ | ⟨k, e, hk, hseen, hv, hevent, -, -, hsame⟩ :=
    move_cases ⟨pacedPlatform, config, build⟩ c m
  · refine ⟨fun cluster hagree => ?_, hsame.callsOn name, hsame.linesOf step.name⟩
    rw [hsame.state]
    exact hagree
  · have hki : k ≠ i := by
      rintro rfl
      rw [hevent] at hnone
      cases hnone
    obtain ⟨step', hgrown, hstep, hname⟩ := h.others k e.before hki hk
    have hpods := hgrown.pod_of_calls hv
    have hlines := hgrown.step_of_sent hv (by rw [hseen]; exact h.isOpen)
    refine ⟨fun cluster hagree => ?_, ?_, ?_⟩
    · rw [hsame.state]
      rw [← hseen] at hagree
      obtain ⟨task, r, w, r', w'⟩ := e
      cases task with
      | none =>
        exact (Run.transition_of_act hv).agree_of_other
          (fun spec hs => hname spec (hgrown.built hs)) hagree
      | some id =>
        obtain ⟨t, result, -, ht, hleft, -⟩ := Run.transition_of_actTask hv
        dsimp only at hleft hagree ⊢
        rw [hleft, ht.state_eq Platform.steady_paced]
        exact hagree
    · have hnothing : e.deeds.filter (·.1.name = name) = [] := by
        rw [List.filter_eq_nil_iff]
        intro deed hdeed
        obtain ⟨call, hcall, rfl⟩ := List.mem_map.1 hdeed
        obtain ⟨spec, hb, hpod⟩ := hpods call hcall
        have hother : spec.ref.name ≠ name := hname spec hb
        simpa [hpod] using hother
      rw [hsame.callsOn, RunEvent.callsOn_left hv, hnothing, List.append_nil, hseen]
    · have hnothing : e.sent.filter (·.step = step.name) = [] := by
        rw [List.filter_eq_nil_iff]
        intro line hline
        simpa [hlines line hline] using hstep
      rw [hsame.linesOf, RunEvent.linesOf_left hv, hnothing, List.append_nil, hseen]

theorem Hosts.move_view (h : c.Hosts ⟨pacedPlatform, config, build⟩ step name i) {r : Run}
    (hr : c.runs[i]? = some r) (m : Move) :
    let next := c.move ⟨pacedPlatform, config, build⟩ m
    (next.runs[i]? = some r ∧
      (∀ cluster, c.world.state.Agree name cluster → next.world.state.Agree name cluster) ∧
      next.world.callsOn name = c.world.callsOn name ∧
      next.world.linesOf step.name = c.world.linesOf step.name) ∨
    ∃ e : RunEvent PacedCluster, e.Valid ⟨pacedPlatform, config, build⟩ ∧ e.before = r ∧
      e.seen = c.world ∧ r.Grown ⟨pacedPlatform, config, build⟩ step ∧
      e.seen.cancelled = false ∧ e.seen.channel.isOpen = true ∧
      next.runs[i]? = some e.after ∧ next.world.SameRecord e.left := by
  obtain ⟨s, hs, hgrown⟩ := h.run
  obtain rfl : r = s := Option.some.inj (hr.symm.trans hs)
  obtain ⟨hnone, hr'⟩ | ⟨e, hevent, hv, hbefore, hseen, hr', -⟩ := Crew.move_view hr m
  · exact .inl ⟨hr', h.frame hnone⟩
  · refine .inr ⟨e, hv, hbefore, hseen, hgrown, ?_, ?_, hr', record_of_event hevent⟩
    · rw [hseen]
      exact h.unarmed.cancelled
    · rw [hseen]
      exact h.isOpen

end Crew

end StepRunner
