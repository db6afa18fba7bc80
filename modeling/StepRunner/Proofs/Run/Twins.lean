import StepRunner.Proofs.Cluster.Agreement
import StepRunner.Proofs.Run.Lifecycle

/-!
# Steps that are alike

Two runs that are alike, on platforms that answer alike: whatever step one of them makes, the other
can make one that is alike as soon as the clock and the reader let it, and after it their platforms
answer alike as before.

* `RunEvent.deeds`        the calls of a step, apart from their times
* `RunEvent.Like`         two steps that come to the same
* `Run.Ready`             a run that nothing keeps from its next step
* `Run.Due`               a run that waits for nothing any more
* `Run.Leads`             what a step means for a run that is alike: nothing yet, or a step as well
* `Run.leads_of_act`      a run that is ready follows the step of one that is alike
* `LogTask.leads_of_act`  so does a log task
-/

namespace StepRunner

variable {σ τ : Type}

namespace RunEvent

/-- the calls of a step, apart from their times -/
def deeds (e : RunEvent σ) : List (PodRef × CallEvent) := e.calls.map fun c => (c.pod, c.event)

theorem deeds_of_no_call {e : RunEvent σ} (h : e.left.calls = e.seen.calls) : e.deeds = [] := by
  rw [deeds, calls_of_append [] h]
  rfl

theorem deeds_of_call {e : RunEvent σ} {time : Nat} {pod : PodRef} {event : CallEvent}
    (h : e.left.calls = ⟨time, pod, event⟩ :: e.seen.calls) : e.deeds = [(pod, event)] := by
  rw [deeds, calls_of_append [_] h]
  rfl

/-- two steps of runs that come to the same: what is done and, if there are readers, sent, the log
tasks that are started, and where the runs are then -/
structure Like (E : FailuresLike) (e : RunEvent σ) (e' : RunEvent τ) : Prop where
  after : e.after.Like E e'.after
  forked : Run.Forked e.before e'.before e.after e'.after
  deeds : e.deeds = e'.deeds
  sent : e.seen.channel.isOpen = true → e'.seen.channel.isOpen = true → e.sent = e'.sent

variable {E : FailuresLike} {e : RunEvent σ} {e' : RunEvent τ}

theorem like_of_no_call (hafter : e.after.Like E e'.after)
    (hforked : Run.Forked e.before e'.before e.after e'.after)
    (hcalls : e.left.calls = e.seen.calls) (hcalls' : e'.left.calls = e'.seen.calls)
    (hsent : e.left.channel = e.seen.channel) (hsent' : e'.left.channel = e'.seen.channel) :
    e.Like E e' :=
  ⟨hafter, hforked, (deeds_of_no_call hcalls).trans (deeds_of_no_call hcalls').symm,
    fun _ _ => (sent_of_same hsent).trans (sent_of_same hsent').symm⟩

theorem like_of_call {time time' : Nat} {pod : PodRef} {event : CallEvent}
    (hafter : e.after.Like E e'.after)
    (hforked : Run.Forked e.before e'.before e.after e'.after)
    (hcalls : e.left.calls = ⟨time, pod, event⟩ :: e.seen.calls)
    (hcalls' : e'.left.calls = ⟨time', pod, event⟩ :: e'.seen.calls)
    (hsent : e.left.channel = e.seen.channel) (hsent' : e'.left.channel = e'.seen.channel) :
    e.Like E e' :=
  ⟨hafter, hforked, (deeds_of_call hcalls).trans (deeds_of_call hcalls').symm,
    fun _ _ => (sent_of_same hsent).trans (sent_of_same hsent').symm⟩

end RunEvent

theorem Timer.turn_of_due {t : Timer} {now : Nat} (hw : t.wake ≤ now) (ha : t.asked = true)
    (delay : Nat) : t.turn now delay = .go := by
  rw [turn, if_neg (Nat.not_lt.2 hw), if_pos ha]

namespace Run

/-- the pod that a run is about, from the time when it is built -/
def spec? (r : Run) : Option PodSpec :=
  match r.phase with
  | .creating spec | .streaming spec _ | .announcing spec .. | .joining spec _ | .finishing spec _
  | .deleting spec _ => some spec
  | _ => none

/-- A run that nothing keeps from its next step: the token has not fired, no reader has to be waited
for, and if a call is to have its effect, it has been made and it is time for it. -/
structure Ready (r : Run) (w : World σ) : Prop where
  unfired : w.cancelled = false
  canSend : w.channel.canSend = true
  due : r.call? ≠ none → r.timer.wake ≤ w.now ∧ r.timer.asked = true

theorem Ready.turn {r : Run} {w : World σ} (h : r.Ready w) {call : Call} {spec : PodSpec}
    (hcall : r.call? = some (call, spec)) (delay : Nat) : r.timer.turn w.now delay = .go := by
  obtain ⟨hwake, hasked⟩ := h.due (by simp [hcall])
  exact Timer.turn_of_due hwake hasked delay

variable {E : FailuresLike} {p : Platform σ} {p' : Platform τ} {R : σ → τ → Prop}
  {config : Config} {build : StepDefinition → Built} {name : String}
  {r r' q q' : Run} {w w' : World σ} {v v' : World τ}

/-- What a run that is ready makes of the step of one that is alike: it makes a step that comes to
the same, and their platforms are related after it as before. -/
structure Followed (E : FailuresLike) (setup : Setup τ) (R : σ → τ → Prop) (e : RunEvent σ)
    (e' : RunEvent τ) : Prop where
  act : e'.before.act setup e'.seen = some (e'.after, e'.left)
  like : e.Like E e'
  related : R e.left.state e'.left.state

theorem like_phase_of (hlike : r.Like E q) {phase : Phase} (hp : r.phase = phase) :
    phase.Like E q.phase := hp ▸ hlike.phase

/-! ## the start -/

theorem follow_start (hlike : r.Like E q) (hready : q.Ready v)
    (hrel : R w.state v.state) (hp : r.phase = .start) (hc : w.cancelled = false)
    (hact : r.act ⟨p, config, build⟩ w = some (r', w')) :
    ∃ q' v', Followed E ⟨p', config, build⟩ R ⟨none, r, w, r', w'⟩ ⟨none, q, v, q', v'⟩ := by
  have hq : q.phase = .start := (like_phase_of hlike hp).of_start
  have hsame (phase : Phase) (hrefl : phase.Like E phase)
      (hact' : q.act ⟨p', config, build⟩ v = some (q.goTo phase v.now, v)) :
      ∃ q' v', Followed E ⟨p', config, build⟩ R ⟨none, r, w, r.goTo phase w.now, w⟩
        ⟨none, q, v, q', v'⟩ :=
    ⟨_, _, hact', RunEvent.like_of_no_call (hlike.goTo hrefl _ _)
      (forked_nil ⟨rfl, rfl⟩ ⟨rfl, rfl⟩) rfl rfl rfl rfl, hrel⟩
  unfold act at hact
  simp only [hp, hc, Bool.false_eq_true, if_false] at hact
  cases hb : build r.step with
  | panicked =>
    simp only [hb] at hact
    cases hact
    refine hsame .panicked .panicked ?_
    simp only [act, hq, hready.unfired, Bool.false_eq_true, if_false, ← hlike.step, hb]
  | refused reason =>
    simp only [hb] at hact
    cases hact
    refine hsame _ (.ended (RunError.like_same _)) ?_
    simp only [act, hq, hready.unfired, Bool.false_eq_true, if_false, ← hlike.step, hb]
  | spec spec =>
    simp only [hb] at hact
    cases hact
    refine hsame _ (.creating spec) ?_
    simp only [act, hq, hready.unfired, Bool.false_eq_true, if_false, ← hlike.step, hb]

/-! ## calls -/

theorem follow_createRefused {spec : PodSpec} (hlike : r.Like E q) (hready : q.Ready v)
    (halike : p.Alike p' R spec.name) (hrel : R w.state v.state) (hp : r.phase = .creating spec)
    {e : ClusterError}
    {state : σ} (ha : p.create spec w.state = (.error e, state)) :
    ∃ q' v', Followed E ⟨p', config, build⟩ R
      ⟨none, r, w, r.goTo (.ended (some (.createPod spec.ref.text e))) w.now,
        w.after state spec.ref (.created false)⟩ ⟨none, q, v, q', v'⟩ := by
  have hq : q.phase = .creating spec := (like_phase_of hlike hp).of_creating
  have hturn := hready.turn (show q.call? = some (.create, spec) by simp [call?, hq])
  obtain ⟨hanswer, hstate⟩ := halike.create rfl hrel
  rw [ha] at hanswer hstate
  rcases hv : p'.create spec v.state with ⟨answer, state'⟩
  rw [hv] at hanswer hstate
  cases hanswer with
  | error =>
    have hact : q.act ⟨p', config, build⟩ v =
        some (q.goTo (.ended (some (.createPod spec.ref.text e))) v.now,
          v.after state' spec.ref (.created false)) := by
      simp only [act, hq, hturn, hv]
    exact ⟨_, _, hact, RunEvent.like_of_call (hlike.goTo (.ended (RunError.like_same _)) _ _)
      (forked_nil ⟨rfl, rfl⟩ ⟨rfl, rfl⟩) rfl rfl rfl rfl, hstate⟩

/-- whether the platform tells the identity of a new pod is a matter of a warning only -/
theorem left_of_created {left w : World σ} {state : σ} {pod : PodRef}
    {identity : Option PodIdentity}
    (h : (if identity.isNone then (w.after state pod (.created true)).warn [.noPodReturned]
      else w.after state pod (.created true)) = left) :
    left.calls = ⟨w.now, pod, .created true⟩ :: w.calls ∧ left.channel = w.channel ∧
      left.state = state := by
  rw [← h]
  split <;> exact ⟨rfl, rfl, rfl⟩

theorem follow_created {spec : PodSpec} (hlike : r.Like E q) (hready : q.Ready v)
    (halike : p.Alike p' R spec.name) (hrel : R w.state v.state) (hp : r.phase = .creating spec)
    {identity : Option PodIdentity} {state : σ}
    (ha : p.create spec w.state = (.ok identity, state)) :
    ∃ q' v', Followed E ⟨p', config, build⟩ R
      ⟨none, r, w, r.goTo (beginStreaming ⟨p, config, build⟩ spec) w.now,
        if identity.isNone then (w.after state spec.ref (.created true)).warn [.noPodReturned]
          else w.after state spec.ref (.created true)⟩ ⟨none, q, v, q', v'⟩ := by
  have hq : q.phase = .creating spec := (like_phase_of hlike hp).of_creating
  have hturn := hready.turn (show q.call? = some (.create, spec) by simp [call?, hq])
  obtain ⟨hanswer, hstate⟩ := halike.create rfl hrel
  rw [ha] at hanswer hstate
  rcases hv : p'.create spec v.state with ⟨answer, state'⟩
  rw [hv] at hanswer hstate
  cases hanswer with
  | @ok _ identity' =>
    have hact : q.act ⟨p', config, build⟩ v =
        some (q.goTo (beginStreaming ⟨p', config, build⟩ spec) v.now,
          if identity'.isNone then (v.after state' spec.ref (.created true)).warn [.noPodReturned]
            else v.after state' spec.ref (.created true)) := by
      simp only [act, hq, hturn, hv]
      rfl
    generalize hw : (if identity.isNone then
      (w.after state spec.ref (.created true)).warn [.noPodReturned]
      else w.after state spec.ref (.created true)) = left
    generalize hv' : (if identity'.isNone then
      (v.after state' spec.ref (.created true)).warn [.noPodReturned]
      else v.after state' spec.ref (.created true)) = left' at hact
    obtain ⟨hcalls, hchannel, rfl⟩ := left_of_created hw
    obtain ⟨hcalls', hchannel', rfl⟩ := left_of_created hv'
    exact ⟨_, _, hact, RunEvent.like_of_call (hlike.goTo (beginStreaming_like _ _ rfl spec) _ _)
      (forked_nil ⟨rfl, rfl⟩ ⟨rfl, rfl⟩) hcalls hcalls' hchannel hchannel', hstate⟩

theorem like_of_look {pod : PodRef} (halike : p.Alike p' R pod.name) (hrel : R w.state v.state)
    {warnings warnings' : List Warning} (hafter : r'.Like E q') (hforked : Forked r q r' q') :
    RunEvent.Like E ⟨none, r, w, r', (w.fetch p pod).2.warn warnings⟩
      ⟨none, q, v, q', (v.fetch p' pod).2.warn warnings'⟩ := by
  have hok : (w.fetch p pod).1.isOk = (v.fetch p' pod).1.isOk :=
    (halike.fetch pod rfl hrel).1.isOk
  have hcalls : (v.fetch p' pod).2.calls =
      ⟨v.now, pod, .fetched (w.fetch p pod).1.isOk⟩ :: v.calls := by
    rw [hok]
    rfl
  exact RunEvent.like_of_call hafter hforked rfl hcalls rfl rfl

theorem exists_answer_like (pod : PodRef) (halike : p.Alike p' R pod.name)
    (hrel : R w.state v.state) {a a' b : Watch} (hwatch : a.Like a') {polls polls' : Nat}
    (hpolls : polls = polls') {outcome : Option Watch.Outcome} {warnings : List Warning}
    (ha : a.answer polls (w.fetch p pod).1 = (b, outcome, warnings)) :
    ∃ b' outcome' warnings',
      a'.answer polls' (p'.fetch pod v.state).1 = (b', outcome', warnings') ∧ b.Like b' ∧
        Option.Rel Watch.Outcome.Like outcome outcome' := by
  have hlike := Watch.answer_like hwatch polls (halike.fetch pod rfl hrel).1
  have ha' : a.answer polls (p.fetch pod w.state).1 = (b, outcome, warnings) := ha
  rw [ha', hpolls] at hlike
  exact ⟨_, _, _, rfl, hlike⟩

theorem follow_streamingLook {spec : PodSpec} (hlike : r.Like E q) (hready : q.Ready v)
    (halike : p.Alike p' R spec.name) (hrel : R w.state v.state) {s : Streaming}
    (hp : r.phase = .streaming spec s)
    {watch : Watch} {outcome : Watch.Outcome} {warnings : List Warning}
    (ha : s.watch.answer s.polls (w.fetch p spec.ref).1 =
      (watch, some outcome, warnings)) :
    ∃ q' v', Followed E ⟨p', config, build⟩ R
      ⟨none, r, w, r.afterStreaming spec { s with watch } w.now outcome,
        (w.fetch p spec.ref).2.warn warnings⟩ ⟨none, q, v, q', v'⟩ := by
  obtain ⟨s', hq, hs⟩ := (like_phase_of hlike hp).of_streaming
  have hturn := hready.turn (show q.call? = some (.fetch, spec) by simp [call?, hq])
  obtain ⟨watch', outcome', warnings', hv, hwatch, houtcome⟩ :=
    exists_answer_like spec.ref halike hrel hs.watch hs.polls ha
  cases houtcome with
  | @some _ outcome' houtcome =>
    have hnext : Streaming.Like { s with watch } { s' with watch := watch' } :=
      ⟨hwatch, hs.polls, hs.streamed⟩
    obtain ⟨hafter, hforked⟩ := afterStreaming_like spec hlike hnext houtcome w.now v.now
    refine ⟨_, (v.fetch p' spec.ref).2.warn warnings', ?_,
      like_of_look halike hrel hafter hforked, (halike.fetch spec.ref rfl hrel).2⟩
    simp only [act, hq, hready.unfired, Bool.false_eq_true, if_false, hturn, World.fetch, hv]
    rfl

theorem follow_streamingAgain {spec : PodSpec} (hlike : r.Like E q) (hready : q.Ready v)
    (halike : p.Alike p' R spec.name) (hrel : R w.state v.state) {s : Streaming}
    (hp : r.phase = .streaming spec s)
    {watch : Watch} {warnings : List Warning} (pause : Nat)
    (ha : s.watch.answer s.polls (w.fetch p spec.ref).1 = (watch, none, warnings)) :
    ∃ q' v', Followed E ⟨p', config, build⟩ R
      ⟨none, r, w, r.goToAfter (.streaming spec { s with watch, polls := s.polls + 1 }) w.now pause,
        (w.fetch p spec.ref).2.warn warnings⟩ ⟨none, q, v, q', v'⟩ := by
  obtain ⟨s', hq, hs⟩ := (like_phase_of hlike hp).of_streaming
  have hturn := hready.turn (show q.call? = some (.fetch, spec) by simp [call?, hq])
  obtain ⟨watch', outcome', warnings', hv, hwatch, houtcome⟩ :=
    exists_answer_like spec.ref halike hrel hs.watch hs.polls ha
  cases houtcome with
  | none =>
    have hnext : Streaming.Like { s with watch, polls := s.polls + 1 }
        { s' with watch := watch', polls := s'.polls + 1 } :=
      ⟨hwatch, congrArg (· + 1) hs.polls, hs.streamed⟩
    refine ⟨_, (v.fetch p' spec.ref).2.warn warnings', ?_,
      like_of_look halike hrel (hlike.goToAfter (.streaming spec hnext) _ v.now _
        config.pollInterval.toNat) (forked_nil ⟨rfl, rfl⟩ ⟨rfl, rfl⟩),
      (halike.fetch spec.ref rfl hrel).2⟩
    simp only [act, hq, hready.unfired, Bool.false_eq_true, if_false, hturn, World.fetch, hv]
    rfl

theorem follow_announced {spec : PodSpec} (hlike : r.Like E q) (hready : q.Ready v)
    (hrel : R w.state v.state) {s : Streaming} {container : String}
    (hp : r.phase = .announcing spec s container) :
    ∃ q' v', Followed E ⟨p', config, build⟩ R
      ⟨none, r, w, r.afterNotice spec s container w.now,
        w.send (.containerReady r.step.name container)⟩ ⟨none, q, v, q', v'⟩ := by
  obtain ⟨s', hq, hs⟩ := (like_phase_of hlike hp).of_announcing
  obtain ⟨hafter, hforked⟩ := afterNotice_like spec hlike hs container w.now v.now
  refine ⟨_, v.send (.containerReady q.step.name container), ?_,
    ⟨hafter, hforked, ?_, fun hopen hopen' => ?_⟩, hrel⟩
  · simp only [act, hq, hready.unfired, Bool.false_eq_true, if_false, hready.canSend, if_true]
    rfl
  · rw [RunEvent.deeds_of_no_call rfl, RunEvent.deeds_of_no_call rfl]
  · rw [RunEvent.sent_of_open hopen rfl, RunEvent.sent_of_open hopen' rfl, hlike.step]

/-- log tasks that have failed beside what has ended the wait are a matter of a warning only -/
theorem left_of_joined {left w : World σ} {warns : Bool}
    (h : (if warns then w.warn [.logTasksAlsoFailed] else w) = left) :
    left.calls = w.calls ∧ left.channel = w.channel ∧ left.state = w.state := by
  rw [← h]
  split <;> exact ⟨rfl, rfl, rfl⟩

theorem follow_joinedAll {spec : PodSpec} (hlike : r.Like E q) (hready : q.Ready v)
    (hrel : R w.state v.state) {fatal : Option RunError}
    (hp : r.phase = .joining spec fatal) (htasks : q.tasks = [])
    (hfailures : E r.failures q.failures) (hempty : r.failures = [] ↔ q.failures = []) :
    ∃ q' v', Followed E ⟨p', config, build⟩ R
      ⟨none, r, w, r.afterJoining ⟨p, config, build⟩ spec fatal w.now,
        if fatal.isSome && !r.failures.isEmpty then w.warn [.logTasksAlsoFailed] else w⟩
      ⟨none, q, v, q', v'⟩ := by
  have hq : q.phase = .joining spec fatal := (like_phase_of hlike hp).of_joining
  have hact : q.act ⟨p', config, build⟩ v =
      some (q.afterJoining ⟨p', config, build⟩ spec fatal v.now,
        if fatal.isSome && !q.failures.isEmpty then v.warn [.logTasksAlsoFailed] else v) := by
    simp only [act, hq, hready.unfired, Bool.false_eq_true, if_false, htasks, joinable?,
      List.isEmpty_nil, if_true]
  generalize hw : (if fatal.isSome && !r.failures.isEmpty then w.warn [.logTasksAlsoFailed]
    else w) = left
  generalize hv : (if fatal.isSome && !q.failures.isEmpty then v.warn [.logTasksAlsoFailed]
    else v) = left' at hact
  obtain ⟨hcalls, hchannel, hstate⟩ := left_of_joined hw
  obtain ⟨hcalls', hchannel', hstate'⟩ := left_of_joined hv
  rw [← hstate, ← hstate'] at hrel
  exact ⟨_, _, hact, RunEvent.like_of_no_call
    (afterJoining_like rfl hlike hfailures hempty spec fatal w.now v.now)
    (forked_nil (spent_afterJoining ..) (spent_afterJoining ..)) hcalls hcalls' hchannel hchannel',
    hrel⟩

theorem follow_finishingLook {spec : PodSpec} (hlike : r.Like E q) (hready : q.Ready v)
    (halike : p.Alike p' R spec.name) (hrel : R w.state v.state) {f : Finishing}
    (hp : r.phase = .finishing spec f)
    {watch : Watch} {outcome : Watch.Outcome} {warnings : List Warning}
    (ha : f.watch.answer f.polls (w.fetch p spec.ref).1 =
      (watch, some outcome, warnings)) :
    ∃ q' v', Followed E ⟨p', config, build⟩ R
      ⟨none, r, w, r.afterFinishing ⟨p, config, build⟩ spec { f with watch } w.now
          outcome,
        (w.fetch p spec.ref).2.warn warnings⟩ ⟨none, q, v, q', v'⟩ := by
  obtain ⟨f', hq, hf⟩ := (like_phase_of hlike hp).of_finishing
  have hturn := hready.turn (show q.call? = some (.fetch, spec) by simp [call?, hq])
  obtain ⟨watch', outcome', warnings', hv, hwatch, houtcome⟩ :=
    exists_answer_like spec.ref halike hrel hf.watch hf.polls ha
  cases houtcome with
  | @some _ outcome' houtcome =>
    have hnext : Finishing.Like { f with watch } { f' with watch := watch' } :=
      ⟨hwatch, hf.polls, hf.containers⟩
    have hafter : (r.afterFinishing ⟨p, config, build⟩ spec { f with watch } w.now
        outcome).Like E (q.afterFinishing ⟨p', config, build⟩ spec
          { f' with watch := watch' } v.now outcome') :=
      afterFinishing_like rfl hlike hnext houtcome spec w.now v.now
    refine ⟨_, (v.fetch p' spec.ref).2.warn warnings', ?_,
      like_of_look halike hrel hafter
        (forked_nil (spent_afterFinishing ..) (spent_afterFinishing ..)),
      (halike.fetch spec.ref rfl hrel).2⟩
    simp only [act, hq, hready.unfired, Bool.false_eq_true, if_false, hturn, World.fetch, hv]
    rfl

theorem follow_finishingAgain {spec : PodSpec} (hlike : r.Like E q) (hready : q.Ready v)
    (halike : p.Alike p' R spec.name) (hrel : R w.state v.state) {f : Finishing}
    (hp : r.phase = .finishing spec f)
    {watch : Watch} {warnings : List Warning} (pause : Nat)
    (ha : f.watch.answer f.polls (w.fetch p spec.ref).1 = (watch, none, warnings)) :
    ∃ q' v', Followed E ⟨p', config, build⟩ R
      ⟨none, r, w, r.goToAfter (.finishing spec { f with watch, polls := f.polls + 1 }) w.now pause,
        (w.fetch p spec.ref).2.warn warnings⟩ ⟨none, q, v, q', v'⟩ := by
  obtain ⟨f', hq, hf⟩ := (like_phase_of hlike hp).of_finishing
  have hturn := hready.turn (show q.call? = some (.fetch, spec) by simp [call?, hq])
  obtain ⟨watch', outcome', warnings', hv, hwatch, houtcome⟩ :=
    exists_answer_like spec.ref halike hrel hf.watch hf.polls ha
  cases houtcome with
  | none =>
    have hnext : Finishing.Like { f with watch, polls := f.polls + 1 }
        { f' with watch := watch', polls := f'.polls + 1 } :=
      ⟨hwatch, congrArg (· + 1) hf.polls, hf.containers⟩
    refine ⟨_, (v.fetch p' spec.ref).2.warn warnings', ?_,
      like_of_look halike hrel (hlike.goToAfter (.finishing spec hnext) _ v.now _
        config.pollInterval.toNat) (forked_nil ⟨rfl, rfl⟩ ⟨rfl, rfl⟩),
      (halike.fetch spec.ref rfl hrel).2⟩
    simp only [act, hq, hready.unfired, Bool.false_eq_true, if_false, hturn, World.fetch, hv]
    rfl

theorem follow_deleted {spec : PodSpec} (hlike : r.Like E q) (hready : q.Ready v)
    (halike : p.Alike p' R spec.name) (hrel : R w.state v.state) {outcome : Option RunError}
    (hp : r.phase = .deleting spec outcome) {answer : Except ClusterError Unit}
    {state : σ} (ha : p.delete spec.ref w.state = (answer, state))
    (hcalls : w'.calls = ⟨w.now, spec.ref, .deleted answer.isOk⟩ :: w.calls)
    (hchannel : w'.channel = w.channel) (hstate : w'.state = state) :
    ∃ q' v', Followed E ⟨p', config, build⟩ R
      ⟨none, r, w, r.goTo (.ended outcome) w.now, w'⟩ ⟨none, q, v, q', v'⟩ := by
  obtain ⟨outcome', hq, houtcome⟩ := (like_phase_of hlike hp).of_deleting
  have hturn := hready.turn (show q.call? = some (.delete, spec) by simp [call?, hq])
  obtain ⟨hanswer, hrel'⟩ := halike.delete spec.ref rfl hrel
  rw [ha] at hanswer hrel'
  rcases hv : p'.delete spec.ref v.state with ⟨answer', state'⟩
  rw [hv] at hanswer hrel'
  obtain rfl : answer = answer' := hanswer
  have hafter := hlike.goTo (.ended houtcome) w.now v.now
  have hforked : Forked r q (r.goTo (.ended outcome) w.now) (q.goTo (.ended outcome') v.now) :=
    forked_nil ⟨rfl, rfl⟩ ⟨rfl, rfl⟩
  rw [← hstate] at hrel'
  cases answer with
  | error e =>
    have hact : q.act ⟨p', config, build⟩ v = some (q.goTo (.ended outcome') v.now,
        (v.after state' spec.ref (.deleted false)).warn [.deleteFailed]) := by
      simp only [act, hq, hturn, hv]
    exact ⟨_, _, hact, RunEvent.like_of_call hafter hforked hcalls rfl hchannel rfl, hrel'⟩
  | ok =>
    have hact : q.act ⟨p', config, build⟩ v = some (q.goTo (.ended outcome') v.now,
        v.after state' spec.ref (.deleted true)) := by
      simp only [act, hq, hturn, hv]
    exact ⟨_, _, hact, RunEvent.like_of_call hafter hforked hcalls rfl hchannel rfl, hrel'⟩

/-! ## every step of a run -/

/-- nothing is left that a run waits for: its call has its effect now, its log tasks are joined -/
structure Due (r : Run) (w : World σ) : Prop where
  call : r.call? ≠ none → r.timer.wake ≤ w.now ∧ r.timer.asked = true
  joined : ∀ spec fatal, r.phase = .joining spec fatal → r.tasks = []

theorem due_of_go {setup : Setup σ} {call : Call} {spec : PodSpec}
    (hcall : r.call? = some (call, spec))
    (ht : r.turn setup w call spec.ref = .go) : r.Due w := by
  refine ⟨fun _ => ⟨?_, Timer.go_of_turn ht⟩, fun spec fatal hp => ?_⟩
  · unfold turn Timer.turn at ht
    split at ht
    next => cases ht
    next hwake => exact Nat.le_of_not_lt hwake
  · simp [call?, hp] at hcall

theorem due_of_phase (hcall : r.call? = none) (hj : ∀ spec fatal, r.phase ≠ .joining spec fatal) :
    r.Due w :=
  ⟨fun h => absurd hcall h, fun spec fatal hp => absurd hp (hj spec fatal)⟩

/-- What a step of a run is to one that is alike: nothing, for a call that is only made; a log task
joined; or a step that the other can follow as soon as it is ready. -/
inductive Leads (E : FailuresLike) (setup : Setup σ) (setup' : Setup τ) (R : σ → τ → Prop)
    (e : RunEvent σ) : Prop where
  | asked {call : Call} {spec : PodSpec} {timer : Timer}
      (hcall : e.before.call? = some (call, spec))
      (ht : e.before.turn setup e.seen call spec.ref = .ask timer)
      (ha : e.after = { e.before with timer }) (hl : e.left = e.seen)
  | joined {spec : PodSpec} {fatal : Option RunError} {task : LogTask} {tasks : List LogTask}
      (hp : e.before.phase = .joining spec fatal)
      (hj : joinable? e.before.tasks = some (task, tasks))
      (ha : e.after = { e.before with
        tasks
        failures := e.before.failures ++ if task.isPanicked then [panicError task] else [] })
      (hl : ∃ warnings, e.left = e.seen.warn warnings)
  | step (hdue : e.before.Due e.seen)
      (h : ∀ q v, e.before.Like E q → q.Ready v → R e.seen.state v.state →
        (e.before.tasks = [] → q.tasks = [] ∧ E e.before.failures q.failures ∧
          (e.before.failures = [] ↔ q.failures = [])) →
        ∃ q' v', Followed E setup' R e ⟨none, q, v, q', v'⟩)

/-- **A run that is ready can follow the steps of one that is alike**, on a platform that answers
alike. -/
theorem leads_of_act (hact : r.act ⟨p, config, build⟩ w = some (r', w'))
    (hc : w.cancelled = false) (halike : p.Alike p' R name)
    (hname : ∀ spec, r.spec? = some spec → spec.name = name) :
    Leads E ⟨p, config, build⟩ ⟨p', config, build⟩ R ⟨none, r, w, r', w'⟩ := by
  have hspec (spec : PodSpec) (h : r.spec? = some spec) : name = spec.name := (hname spec h).symm
  cases transition_of_act hact with
  | cancelledEarly hp hfired | cancelled hp hfired =>
    rw [hc] at hfired
    cases hfired
  | buildPanicked hp | buildRefused hp | built hp =>
    exact .step (due_of_phase (by simp only [call?, hp]) (by simp [hp]))
      fun q v hlike hready hrel _ => follow_start hlike hready hrel hp hc hact
  | asked hcall _ ht => exact .asked hcall ht rfl rfl
  | @createRefused spec _ _ hp ht ha =>
    obtain rfl := hspec spec (by simp only [spec?, hp])
    exact .step (due_of_go (by simp only [call?, hp]) ht)
      fun q v hlike hready hrel _ => follow_createRefused hlike hready halike hrel hp ha
  | @created spec _ _ hp ht ha =>
    obtain rfl := hspec spec (by simp only [spec?, hp])
    exact .step (due_of_go (by simp only [call?, hp]) ht)
      fun q v hlike hready hrel _ => follow_created hlike hready halike hrel hp ha
  | @streamingLook spec _ _ _ _ hp _ ht ha =>
    obtain rfl := hspec spec (by simp only [spec?, hp])
    exact .step (due_of_go (by simp only [call?, hp]) ht)
      fun q v hlike hready hrel _ => follow_streamingLook hlike hready halike hrel hp ha
  | @streamingAgain spec _ _ _ hp _ ht ha =>
    obtain rfl := hspec spec (by simp only [spec?, hp])
    exact .step (due_of_go (by simp only [call?, hp]) ht)
      fun q v hlike hready hrel _ => follow_streamingAgain hlike hready halike hrel hp _ ha
  | announced hp =>
    exact .step (due_of_phase (by simp only [call?, hp]) (by simp [hp]))
      fun q v hlike hready hrel _ => follow_announced hlike hready hrel hp
  | joinedPanicked hp _ hj ht =>
    refine .joined hp hj ?_ ⟨_, rfl⟩
    rw [ht]
    rfl
  | joined hp _ hj ht =>
    refine .joined hp hj ?_ ⟨[], ?_⟩
    · rw [ht]
      simp
    · simp [World.warn]
  | joinedAll hp _ ht =>
    refine .step ⟨by simp [call?, hp], fun _ _ _ => ht⟩ fun q v hlike hready hrel hjoined => ?_
    obtain ⟨htasks, hfailures, hempty⟩ := hjoined ht
    exact follow_joinedAll hlike hready hrel hp htasks hfailures hempty
  | @finishingLook spec _ _ _ _ hp _ ht ha =>
    obtain rfl := hspec spec (by simp only [spec?, hp])
    exact .step (due_of_go (by simp only [call?, hp]) ht)
      fun q v hlike hready hrel _ => follow_finishingLook hlike hready halike hrel hp ha
  | @finishingAgain spec _ _ _ hp _ ht ha =>
    obtain rfl := hspec spec (by simp only [spec?, hp])
    exact .step (due_of_go (by simp only [call?, hp]) ht)
      fun q v hlike hready hrel _ => follow_finishingAgain hlike hready halike hrel hp _ ha
  | @deleteRefused spec _ _ _ hp ht ha | @deleted spec _ _ hp ht ha =>
    obtain rfl := hspec spec (by simp only [spec?, hp])
    exact .step (due_of_go (by simp only [call?, hp]) ht)
      fun q v hlike hready hrel _ => follow_deleted hlike hready halike hrel hp ha rfl rfl rfl

end Run

/-! ## the steps of a log task -/

namespace LogTask

variable {options : Text.SanitizeOptions} {t u : LogTask} {w v : World PacedCluster}
  {result : Result PacedCluster}

/-- a log task that has nothing to wait for: the time for its effect has come, or its next line is
there -/
structure Due (t : LogTask) (now : Nat) : Prop where
  call : ∀ timer, t.phase = .opening timer → timer.wake ≤ now ∧ timer.asked = true
  read : ∀ scanner times, t.phase = .forwarding scanner times none →
    Log.lineTime scanner.reads times ≤ now

/-- a log task that nothing keeps from its next step -/
structure Ready (t : LogTask) (w : World σ) : Prop where
  isOpen : w.channel.isOpen = true
  canSend : w.channel.canSend = true
  due : t.Due w.now

/-- What a log task that is ready makes of the step of one that is alike: the same calls and the
same lines. -/
structure Followed (options : Text.SanitizeOptions) (result : Result PacedCluster)
    (w : World PacedCluster) (u : LogTask) (v : World PacedCluster)
    (result' : Result PacedCluster) : Prop where
  act : u.act pacedPlatform options v = some result'
  task : result.task.Like result'.task
  failure : result.failure = result'.failure
  calls : ∃ made : List CallEvent,
    result.world.calls = (made.map (⟨w.now, u.pod, ·⟩)).reverse ++ w.calls ∧
    result'.world.calls = (made.map (⟨v.now, u.pod, ·⟩)).reverse ++ v.calls
  sent : ∃ lines : List LogLine,
    result.world.channel.sent = lines.reverse ++ w.channel.sent ∧
    result'.world.channel.sent = lines.reverse ++ v.channel.sent

theorem Like.goTo (h : t.Like u) {phase phase' : Phase} (hp : phase.Like phase')
    (w v : World PacedCluster) : (t.goTo phase w).task.Like (u.goTo phase' v).task :=
  ⟨h.id, h.pod, h.step, h.container, hp⟩

theorem Phase.Like.of_opening {timer : Timer} {phase : Phase}
    (h : Phase.Like (.opening timer) phase) : ∃ timer', phase = .opening timer' := by
  cases h with
  | opening _ timer' => exact ⟨timer', rfl⟩

theorem Phase.Like.of_forwarding {scanner : Log.Scanner} {times : List Nat} {line : Option String}
    {phase : Phase} (h : Phase.Like (.forwarding scanner times line) phase) :
    phase = .forwarding scanner times line := by
  cases h
  rfl

theorem act_of_opening (hready : u.Ready v) {timer : Timer} (hu : u.phase = .opening timer)
    {opening : LogOpening} {state : PacedCluster}
    (ha : pacedPlatform.openLogs u.pod u.container v.state = (opening, state)) :
    let opened := v.after state u.pod (.opened u.container)
    u.act pacedPlatform options v = match opening with
      | .panicked => some (u.goTo .panicked opened)
      | .failed e => some (u.fail (.openLogStream u.pod.text u.container e) opened)
      | .stream s =>
        some (u.goTo (.forwarding (.ofReads options s.reads) s.times none) opened) := by
  obtain ⟨hwake, hasked⟩ := hready.due.call timer hu
  have hturn (delay : Nat) : timer.turn v.now delay = .go := Timer.turn_of_due hwake hasked delay
  simp only [act, hu, hturn, ha]
  cases opening <;> rfl

theorem failure_close (t : LogTask) (scanner : Log.Scanner) (w : World σ) :
    (t.close scanner w).failure =
      scanner.failure.map (.readLogStream t.pod.text t.container scanner.linesRead) := by
  unfold close
  split
  next f hf =>
    rw [hf]
    rfl
  next hf =>
    rw [hf]
    rfl

/-- **A log task that is ready can follow the steps of one that is alike**, apart from a call that
is only made. -/
theorem leads_of_act (hact : t.act pacedPlatform options w = some result)
    (hopen : w.channel.isOpen = true) :
    (∃ timer timer', t.phase = .opening timer ∧ result = t.goTo (.opening timer') w) ∨
      ∀ u v, t.Like u → u.Ready v → w.state.Agree t.pod.name v.state →
        ∃ result', Followed options result w u v result' := by
  have hopens {timer : Timer} (hp : t.phase = .opening timer) {opening : LogOpening}
      {state : PacedCluster}
      (ha : pacedPlatform.openLogs t.pod t.container w.state = (opening, state)) {u : LogTask}
      {v : World PacedCluster} (hlike : t.Like u) (hagree : w.state.Agree t.pod.name v.state) :
      ∃ timer' state', u.phase = .opening timer' ∧
        pacedPlatform.openLogs u.pod u.container v.state = (opening, state') := by
    obtain ⟨timer', hu⟩ := (hp ▸ hlike.phase).of_opening
    refine ⟨timer', v.state, hu, Prod.ext ?_ rfl⟩
    rw [← hlike.pod, ← hlike.container, ← hagree.openLogs, ha]
  cases transition_of_act hact with
  | @asked timer timer' hp => exact .inl ⟨timer, timer', hp, rfl⟩
  | openPanicked hp _ ha =>
    refine .inr fun u v hlike hready hagree => ?_
    obtain ⟨timer', state', hu, ha'⟩ := hopens hp ha hlike hagree
    exact ⟨_, act_of_opening hready hu ha', hlike.goTo .panicked _ _, rfl,
      ⟨[.opened u.container], by rw [← hlike.pod, ← hlike.container]; rfl, rfl⟩, [], rfl, rfl⟩
  | openRefused hp _ ha =>
    refine .inr fun u v hlike hready hagree => ?_
    obtain ⟨timer', state', hu, ha'⟩ := hopens hp ha hlike hagree
    refine ⟨_, act_of_opening hready hu ha', hlike.goTo .ended w v, ?_,
      ⟨[.opened u.container], by rw [← hlike.pod, ← hlike.container]; rfl, rfl⟩, [], rfl, rfl⟩
    show some _ = some _
    rw [hlike.pod, hlike.container]
  | opened hp _ ha =>
    refine .inr fun u v hlike hready hagree => ?_
    obtain ⟨timer', state', hu, ha'⟩ := hopens hp ha hlike hagree
    exact ⟨_, act_of_opening hready hu ha', hlike.goTo (.forwarding _ _ _) _ _, rfl,
      ⟨[.opened u.container], by rw [← hlike.pod, ← hlike.container]; rfl, rfl⟩, [], rfl, rfl⟩
  | @read scanner scanner' times warnings hp _ ha =>
    refine .inr fun u v hlike hready hagree => ?_
    have hu := (hp ▸ hlike.phase).of_forwarding
    have hread := Nat.not_lt.2 (hready.due.read scanner times hu)
    refine ⟨u.goTo (.forwarding scanner' (times.drop (scanner.reads.length - scanner'.reads.length))
      (some scanner'.line)) (v.warn warnings), ?_,
      hlike.goTo (.forwarding _ _ _) _ _, rfl, ⟨[], rfl, rfl⟩, [], rfl, rfl⟩
    simp only [act, hu, if_neg hread, ha]
  | @closed scanner scanner' times warnings hp _ ha =>
    refine .inr fun u v hlike hready hagree => ?_
    have hu := (hp ▸ hlike.phase).of_forwarding
    have hread := Nat.not_lt.2 (hready.due.read scanner times hu)
    obtain ⟨htask, hcalls, hchannel⟩ := close_task t scanner' (w.warn warnings)
    obtain ⟨htask', hcalls', hchannel'⟩ := close_task u scanner' (v.warn warnings)
    refine ⟨u.close scanner' (v.warn warnings), ?_, ?_, ?_, ⟨[], hcalls, hcalls'⟩, [],
      congrArg Channel.sent hchannel, congrArg Channel.sent hchannel'⟩
    · simp only [act, hu, if_neg hread, ha]
    · rw [htask, htask']
      exact hlike.goTo .ended w v
    · rw [failure_close, failure_close, hlike.pod, hlike.container]
  | stopped _ hclosed =>
    rw [hopen] at hclosed
    cases hclosed
  | @sent scanner times line hp =>
    refine .inr fun u v hlike hready hagree => ?_
    have hu := (hp ▸ hlike.phase).of_forwarding
    refine ⟨u.goTo (.forwarding scanner times none) (v.send (.output u.step u.container line)), ?_,
      hlike.goTo (.forwarding _ _ _) _ _, rfl, ⟨[], rfl, rfl⟩, [.output u.step u.container line],
      ?_, ?_⟩
    · simp only [act, hu, hready.isOpen, hready.canSend, Bool.not_true, Bool.false_eq_true,
        if_false, if_true]
    · rw [← hlike.step, ← hlike.container]
      exact congrArg Channel.sent (if_pos hopen)
    · exact congrArg Channel.sent (if_pos hready.isOpen)

end LogTask

end StepRunner
