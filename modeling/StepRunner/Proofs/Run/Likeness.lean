import Mathlib.Data.List.Forall2
import StepRunner.Proofs.Run.Fanout

/-!
# Runs that are alike

Two runs of one step, each on its own pod, may differ in what no one looks at: the identity of the
pod, and when things happen.  Apart from that they are alike, and so is what they go on to from what
is alike.

How alike two lists of failures have to be is left open: they may have to be the same, or the same
up to their order.

* `Observation.Like`, `Watch.Like`   what is seen of two pods
* `Watch.answer_like`                what a wait makes of it
* `RunError.Like`                    errors with the same failures joined
* `Run.Like`                         runs that are as far
* `LogTask.Like`                     log tasks that are as far
* `afterStreaming_like`, `afterNotice_like`, `afterJoining_like`, `afterFinishing_like`
                                     where runs that are alike go from there
-/

namespace StepRunner

variable {σ τ : Type}

/-! ## what is seen of a pod -/

/-- one container, seen in two pods -/
structure Observation.Like (o o' : Observation) : Prop where
  name : o.name = o'.name
  role : o.role = o'.role
  state : o.state = o'.state
  ready : o.ready = o'.ready
  restartCount : o.restartCount = o'.restartCount
  exitCode : o.exitCode = o'.exitCode

/-- two pods that look the same -/
structure PodSnapshot.Like (s s' : PodSnapshot) : Prop where
  phase : s.phase = s'.phase
  initStatuses : s.initStatuses = s'.initStatuses
  statuses : s.statuses = s'.statuses

theorem Observation.like_of (pod pod' : PodIdentity) (role : ContainerRole) (s : ContainerStatus) :
    (Observation.of pod role s).Like (.of pod' role s) :=
  ⟨rfl, rfl, rfl, rfl, rfl, rfl⟩

theorem PodSnapshot.Like.observations {s s' : PodSnapshot} (h : s.Like s') :
    List.Forall₂ Observation.Like s.observations s'.observations := by
  have hall (role : ContainerRole) (statuses : List ContainerStatus) :
      List.Forall₂ Observation.Like (statuses.map (.of s.identity role))
        (statuses.map (.of s'.identity role)) :=
    List.forall₂_map_left_iff.2 (List.forall₂_map_right_iff.2
      (List.forall₂_same.2 fun status _ => Observation.like_of _ _ role status))
  unfold PodSnapshot.observations
  rw [← h.initStatuses, ← h.statuses]
  exact List.rel_append (hall .init _) (hall .app _)

/-- two watches that know the same of their pods -/
structure Watch.Like (w w' : Watch) : Prop where
  pod : w.pod = w'.pod
  goal : w.goal = w'.goal
  limit : w.limit = w'.limit
  known : ∀ name, Option.Rel Observation.Like (w.known.get? name) (w'.known.get? name)
  tracked : w.tracked = w'.tracked
  seen : w.seen = w'.seen
  phase : w.phase = w'.phase

inductive Watch.Outcome.Like : Watch.Outcome → Watch.Outcome → Prop where
  | ok {o o' : Observation} (h : o.Like o') : Like (.ok o) (.ok o')
  | error (e : RunError) : Like (.error e) (.error e)

/-- two answers to a call: both are there and alike, or both fail for one reason -/
inductive AnswersLike {α : Type} (R : α → α → Prop) :
    Except ClusterError α → Except ClusterError α → Prop where
  | ok {a a' : α} (h : R a a') : AnswersLike R (.ok a) (.ok a')
  | error (e : ClusterError) : AnswersLike R (.error e) (.error e)

theorem AnswersLike.isOk {α : Type} {R : α → α → Prop} {answer answer' : Except ClusterError α}
    (h : AnswersLike R answer answer') : answer.isOk = answer'.isOk := by
  cases h <;> rfl

namespace Watch

variable {w w' : Watch} {o o' : Observation} {os os' : List Observation}

theorem met_like (goal : Goal) (h : o.Like o') : goal.met o = goal.met o' := by
  cases goal with
  | ready => exact h.ready
  | done => simp only [Goal.met, h.state]

theorem differs_like (goal : Goal) {old old' : Observation} (hold : old.Like old')
    (h : o.Like o') : goal.differs old o = goal.differs old' o' := by
  cases goal with
  | ready => simp only [Goal.differs, hold.ready, h.ready]
  | done => simp only [Goal.differs, hold.state, h.state]

theorem isNews_like (goal : Goal) {known known' : Dict Observation}
    (hknown : ∀ name, Option.Rel Observation.Like (known.get? name) (known'.get? name))
    (h : o.Like o') : isNews goal known o = isNews goal known' o' := by
  have hrel := hknown o.name
  unfold isNews
  rw [← h.name]
  generalize known.get? o.name = old at hrel
  generalize known'.get? o.name = old' at hrel
  cases hrel with
  | none => rfl
  | some hold => exact differs_like goal hold h

theorem known_insert_like {known known' : Dict Observation}
    (hknown : ∀ name, Option.Rel Observation.Like (known.get? name) (known'.get? name))
    (h : o.Like o') (name : String) : Option.Rel Observation.Like
      ((known.insert o.name o).get? name) ((known'.insert o'.name o').get? name) := by
  rw [Dict.get?_insert, Dict.get?_insert, ← h.name]
  split
  · exact .some h
  · exact hknown name

theorem scan_like (goal : Goal) (hos : List.Forall₂ Observation.Like os os')
    {known known' : Dict Observation}
    (hknown : ∀ name, Option.Rel Observation.Like (known.get? name) (known'.get? name)) :
    (∀ name, Option.Rel Observation.Like ((scan goal known os).1.get? name)
      ((scan goal known' os').1.get? name)) ∧
      Option.Rel Observation.Like (scan goal known os).2 (scan goal known' os').2 := by
  induction hos generalizing known known' with
  | nil => exact ⟨hknown, .none⟩
  | cons ho _ ih =>
    unfold scan
    rw [isNews_like goal hknown ho, met_like goal ho]
    split
    · exact ⟨known_insert_like hknown ho, .some ho⟩
    · exact ih (known_insert_like hknown ho)

theorem map_name_like (hos : List.Forall₂ Observation.Like os os') :
    os.map (·.name) = os'.map (·.name) := by
  induction hos with
  | nil => rfl
  | cons ho _ ih => rw [List.map_cons, List.map_cons, ho.name, ih]

theorem isEmpty_like (hos : List.Forall₂ Observation.Like os os') : os.isEmpty = os'.isEmpty := by
  cases hos <;> rfl

theorem absorb_like (h : w.Like w') {s s' : PodSnapshot} (hs : s.Like s') :
    (w.absorb s).1.Like (w'.absorb s').1 ∧
      Option.Rel Observation.Like (w.absorb s).2 (w'.absorb s').2 := by
  obtain ⟨hknown, hfound⟩ := scan_like w.goal hs.observations h.known
  unfold absorb
  rw [← h.goal]
  refine ⟨⟨h.pod, rfl, h.limit, hknown, map_name_like hs.observations, ?_, hs.phase⟩, hfound⟩
  show (w.seen || !s.observations.isEmpty) = (w'.seen || !s'.observations.isEmpty)
  rw [h.seen, isEmpty_like hs.observations]

theorem lacks_like (h : w.Like w') (name : String) : w.lacks name = w'.lacks name := by
  have hrel := h.known name
  unfold lacks
  generalize w.known.get? name = old at hrel
  generalize w'.known.get? name = old' at hrel
  cases hrel with
  | none => rfl
  | some hold =>
    dsimp only
    rw [met_like w.goal hold, h.goal]

theorem remaining_like (h : w.Like w') : w.remaining = w'.remaining := by
  have hlacks : w.lacks = w'.lacks := funext (lacks_like h)
  unfold remaining
  rw [h.seen, h.tracked, hlacks]

theorem pending_like (h : w.Like w') : List.Forall₂ Observation.Like w.pending w'.pending := by
  have hknown : List.Forall₂ Observation.Like (w.tracked.filterMap w.known.get?)
      (w'.tracked.filterMap w'.known.get?) := by
    rw [← h.tracked]
    exact List.rel_filterMap (fun _ _ heq => heq ▸ h.known _)
      (List.forall₂_same.2 fun name _ => Eq.refl name)
  refine List.rel_filter (fun o o' ho => ?_) hknown
  show (!w.goal.met o) = true ↔ (!w'.goal.met o') = true
  rw [met_like w.goal ho, h.goal]

/-- **What a wait makes of answers that are alike is alike.** -/
theorem answer_like (h : w.Like w') (polls : Nat)
    {answer answer' : Except ClusterError PodSnapshot}
    (ha : AnswersLike PodSnapshot.Like answer answer') :
    (w.answer polls answer).1.Like (w'.answer polls answer').1 ∧
      Option.Rel Outcome.Like (w.answer polls answer).2.1 (w'.answer polls answer').2.1 := by
  cases ha with
  | error e =>
    refine ⟨h, ?_⟩
    show Option.Rel Outcome.Like (some (.error (.fetchPod w.pod.text e)))
      (some (.error (.fetchPod w'.pod.text e)))
    rw [h.pod]
    exact .some (.error _)
  | @ok s s' hs =>
    obtain ⟨habsorb, hfound⟩ := absorb_like h hs
    unfold Watch.answer
    dsimp only
    generalize w.absorb s = p at habsorb hfound
    generalize w'.absorb s' = p' at habsorb hfound
    obtain ⟨v, found⟩ := p
    obtain ⟨v', found'⟩ := p'
    cases hfound with
    | some ho => exact ⟨habsorb, .some (.ok ho)⟩
    | none =>
      have hleft : v.nothingLeft = v'.nothingLeft := by
        unfold nothingLeft
        rw [habsorb.pod]
      dsimp only at habsorb ⊢
      rw [hleft, remaining_like habsorb, habsorb.phase, (pending_like habsorb).length_eq,
        habsorb.pod, habsorb.goal, habsorb.limit]
      split
      · exact ⟨habsorb, .some (.error _)⟩
      · split
        · exact ⟨habsorb, .some (.error _)⟩
        · split
          · exact ⟨habsorb, .some (.error _)⟩
          · exact ⟨habsorb, .none⟩

theorem like_begin (pod : PodRef) (goal : Goal) (limit : Nat) :
    (Watch.begin pod goal limit).Like (.begin pod goal limit) :=
  ⟨rfl, rfl, rfl, fun _ => .none, rfl, rfl, rfl⟩

end Watch

/-! ## the end of a pod -/

structure FinishedPod.Like (f f' : FinishedPod) : Prop where
  phase : f.phase = f'.phase
  containers : List.Forall₂ Observation.Like f.containers f'.containers
  unfinished : List.Forall₂ Observation.Like f.unfinished f'.unfinished

theorem noteContainer_like {o o' : Observation} (ho : o.Like o') {os os' : List Observation}
    (hos : List.Forall₂ Observation.Like os os') :
    List.Forall₂ Observation.Like (noteContainer o os) (noteContainer o' os') := by
  induction hos with
  | nil => exact .cons ho .nil
  | cons hold hrest ih =>
    unfold noteContainer
    rw [hold.name, ho.name]
    split
    · exact .cons ho hrest
    · exact .cons hold ih

theorem firstFailed?_like {os os' : List Observation} (hos : List.Forall₂ Observation.Like os os') :
    Option.Rel Observation.Like (firstFailed? os) (firstFailed? os') := by
  unfold firstFailed?
  induction hos with
  | nil => exact .none
  | cons ho _ ih =>
    rw [List.find?_cons, List.find?_cons, Observation.isFailure, Observation.isFailure, ho.exitCode]
    split
    · exact .some ho
    · exact ih

theorem FinishedPod.Like.verdict {f f' : FinishedPod} (h : f.Like f') (checkExitCodes : Bool)
    (pod : String) : f.verdict? checkExitCodes pod = f'.verdict? checkExitCodes pod := by
  have hexit : f.exitError? pod = f'.exitError? pod := by
    have hrel := firstFailed?_like h.containers
    unfold FinishedPod.exitError?
    generalize firstFailed? f.containers = o at hrel
    generalize firstFailed? f'.containers = o' at hrel
    cases hrel with
    | none =>
      dsimp only
      rw [h.phase]
    | some ho =>
      dsimp only
      rw [ho.name, ho.exitCode]
  have hleft : f.leftError? pod = f'.leftError? pod := by
    unfold FinishedPod.leftError?
    rw [Watch.isEmpty_like h.unfinished, h.unfinished.length_eq, h.phase]
  unfold FinishedPod.verdict?
  rw [hexit, hleft]

/-! ## errors -/

/-- how alike the failures of log tasks have to be -/
abbrev FailuresLike := List RunError → List RunError → Prop

/-- two errors, the same or with failures joined that are alike -/
inductive RunError.Like (E : FailuresLike) : RunError → RunError → Prop where
  | same (e : RunError) : Like E e e
  | joined {errors errors' : List RunError} (h : E errors errors') :
      Like E (.logStreaming errors) (.logStreaming errors')

variable {E : FailuresLike}

theorem RunError.like_same (e : Option RunError) : Option.Rel (RunError.Like E) e e := by
  cases e with
  | none => exact .none
  | some e => exact .some (.same e)

/-- errors are the same if failures have to be the same -/
theorem RunError.like_eq_iff {e e' : RunError} : e.Like Eq e' ↔ e = e' := by
  constructor
  · rintro (_ | rfl)
    · rfl
    · rfl
  · rintro rfl
    exact .same e

theorem RunError.Like.symm {e e' : RunError} (h : e.Like List.Perm e') : e'.Like List.Perm e := by
  cases h with
  | same => exact .same e
  | joined h => exact .joined h.symm

theorem RunError.Like.trans {e e' e'' : RunError} (h : e.Like List.Perm e')
    (h' : e'.Like List.Perm e'') : e.Like List.Perm e'' := by
  cases h with
  | same => exact h'
  | joined h =>
    cases h' with
    | same => exact .joined h
    | joined h' => exact .joined (h.trans h')

theorem RunError.rel_of_rel {e e' e'' : Option RunError}
    (h : Option.Rel (RunError.Like List.Perm) e e'')
    (h' : Option.Rel (RunError.Like List.Perm) e' e'') :
    Option.Rel (RunError.Like List.Perm) e e' := by
  cases h with
  | none =>
    cases h'
    exact .none
  | some hlike =>
    cases h' with
    | some hlike' => exact .some (hlike.trans hlike'.symm)

/-! ## log tasks -/

inductive LogTask.Phase.Like : LogTask.Phase → LogTask.Phase → Prop where
  | opening (timer timer' : Timer) : Like (.opening timer) (.opening timer')
  | forwarding (scanner : Log.Scanner) (times : List Nat) (line : Option String) :
      Like (.forwarding scanner times line) (.forwarding scanner times line)
  | ended : Like .ended .ended
  | panicked : Like .panicked .panicked

/-- two log tasks that are as far -/
structure LogTask.Like (t t' : LogTask) : Prop where
  id : t.id = t'.id
  pod : t.pod = t'.pod
  step : t.step = t'.step
  container : t.container = t'.container
  phase : t.phase.Like t'.phase

namespace LogTask

variable {t u v : LogTask} {ts us : List LogTask}

theorem Phase.Like.symm {phase phase' : Phase} (h : phase.Like phase') : phase'.Like phase := by
  cases h with
  | opening timer timer' => exact .opening timer' timer
  | forwarding scanner times line => exact .forwarding scanner times line
  | ended => exact .ended
  | panicked => exact .panicked

theorem Phase.Like.trans {phase phase' phase'' : Phase} (h : phase.Like phase')
    (h' : phase'.Like phase'') : phase.Like phase'' := by
  cases h with
  | opening timer =>
    cases h' with
    | opening _ timer'' => exact .opening timer timer''
  | forwarding | ended | panicked => exact h'

theorem Like.refl (t : LogTask) : t.Like t := by
  refine ⟨rfl, rfl, rfl, rfl, ?_⟩
  cases t.phase with
  | opening timer => exact .opening timer timer
  | forwarding scanner times line => exact .forwarding scanner times line
  | ended => exact .ended
  | panicked => exact .panicked

theorem Like.symm (h : t.Like u) : u.Like t :=
  ⟨h.id.symm, h.pod.symm, h.step.symm, h.container.symm, h.phase.symm⟩

theorem Like.trans (h : t.Like u) (h' : u.Like v) : t.Like v :=
  ⟨h.id.trans h'.id, h.pod.trans h'.pod, h.step.trans h'.step, h.container.trans h'.container,
    h.phase.trans h'.phase⟩

theorem Like.isOver (h : t.Like u) : t.isOver = u.isOver := by
  have hphase := h.phase
  unfold LogTask.isOver
  generalize t.phase = phase at hphase
  generalize u.phase = phase' at hphase
  cases hphase <;> rfl

theorem Like.isPanicked (h : t.Like u) : t.isPanicked = u.isPanicked := by
  have hphase := h.phase
  unfold LogTask.isPanicked
  generalize t.phase = phase at hphase
  generalize u.phase = phase' at hphase
  cases hphase <;> rfl

theorem exists_like_of_mem (h : List.Forall₂ Like ts us) (hu : u ∈ us) : ∃ t ∈ ts, t.Like u := by
  induction h with
  | nil => cases hu
  | @cons x y ts us hxy _ ih =>
    rcases List.mem_cons.1 hu with rfl | hu
    · exact ⟨x, List.mem_cons_self, hxy⟩
    · obtain ⟨t, ht, htu⟩ := ih hu
      exact ⟨t, List.mem_cons_of_mem x ht, htu⟩

theorem find?_like (h : List.Forall₂ Like ts us) {id : Nat} (ht : ts.find? (·.id = id) = some t) :
    ∃ u, us.find? (·.id = id) = some u ∧ t.Like u := by
  induction h with
  | nil => cases ht
  | @cons x y ts us hxy _ ih =>
    by_cases hid : x.id = id
    · obtain rfl : x = t := by simpa [hid] using ht
      exact ⟨y, List.find?_cons_of_pos (by simpa [← hxy.id] using hid), hxy⟩
    · rw [List.find?_cons_of_neg (by simpa using hid)] at ht
      obtain ⟨u, hu, htu⟩ := ih ht
      exact ⟨u, by rwa [List.find?_cons_of_neg (by simpa [← hxy.id] using hid)], htu⟩

theorem joinable?_like (h : List.Forall₂ Like ts us) {rest : List LogTask}
    (ht : Run.joinable? ts = some (t, rest)) :
    ∃ u rest', Run.joinable? us = some (u, rest') ∧ t.Like u ∧ List.Forall₂ Like rest rest' := by
  induction h generalizing rest with
  | nil => cases ht
  | @cons x y ts us hxy hrest ih =>
    unfold Run.joinable? at ht ⊢
    rw [← hxy.isOver]
    split at ht
    next hover =>
      cases ht
      exact ⟨y, us, if_pos hover, hxy, hrest⟩
    next hover =>
      rw [if_neg hover]
      obtain ⟨⟨t', rest'⟩, hj, heq⟩ := Option.map_eq_some_iff.1 ht
      cases heq
      obtain ⟨u, us', hu, htu, hus⟩ := ih hj
      exact ⟨u, y :: us', by rw [hu]; rfl, htu, .cons hxy hus⟩

theorem putTask_like (h : List.Forall₂ Like ts us) (htu : t.Like u) :
    List.Forall₂ Like (Run.putTask t ts) (Run.putTask u us) := by
  induction h with
  | nil => exact .nil
  | @cons x y ts us hxy _ ih =>
    refine .cons ?_ ih
    dsimp only
    rw [← hxy.id, ← htu.id]
    split
    · exact htu
    · exact hxy

theorem like_putTask (h : ∀ u ∈ ts, u.id = t.id → u.Like t) :
    List.Forall₂ Like ts (Run.putTask t ts) := by
  refine List.forall₂_map_right_iff.2 (List.forall₂_same.2 fun u hu => ?_)
  split
  next hid => exact h u hu hid
  next => exact .refl u

theorem forall₂_like_symm (h : List.Forall₂ Like ts us) : List.Forall₂ Like us ts :=
  List.Forall₂.flip (h.imp fun _ _ htu => htu.symm)

theorem forall₂_like_trans {vs : List LogTask} (h : List.Forall₂ Like ts us)
    (h' : List.Forall₂ Like us vs) : List.Forall₂ Like ts vs := by
  induction h generalizing vs with
  | nil => exact h'
  | cons hxy _ ih =>
    cases h' with
    | cons hyz hrest => exact .cons (hxy.trans hyz) (ih hrest)

end LogTask

theorem LogTask.like_beginAll (pod : PodRef) (step : String) (now now' first : Nat)
    (names : List String) : List.Forall₂ LogTask.Like (beginAll pod step now first names)
      (beginAll pod step now' first names) := by
  induction names generalizing first with
  | nil => exact .nil
  | cons name names ih => exact .cons ⟨rfl, rfl, rfl, rfl, .opening _ _⟩ (ih (first + 1))

theorem lateNames_like {os os' : List Observation} (hos : List.Forall₂ Observation.Like os os')
    (streamed : List String) : lateNames streamed os = lateNames streamed os' := by
  induction hos generalizing streamed with
  | nil => rfl
  | cons ho _ ih =>
    unfold lateNames
    rw [ho.state, ho.name]
    split
    · exact ih streamed
    · rw [ih]

/-! ## runs -/

structure Streaming.Like (s s' : Streaming) : Prop where
  watch : s.watch.Like s'.watch
  polls : s.polls = s'.polls
  streamed : s.streamed = s'.streamed

structure Finishing.Like (f f' : Finishing) : Prop where
  watch : f.watch.Like f'.watch
  polls : f.polls = f'.polls
  containers : List.Forall₂ Observation.Like f.containers f'.containers

inductive Run.Phase.Like (E : FailuresLike) : Run.Phase → Run.Phase → Prop where
  | start : Like E .start .start
  | creating (spec : PodSpec) : Like E (.creating spec) (.creating spec)
  | streaming (spec : PodSpec) {s s' : Streaming} (h : s.Like s') :
      Like E (.streaming spec s) (.streaming spec s')
  | announcing (spec : PodSpec) {s s' : Streaming} (container : String) (h : s.Like s') :
      Like E (.announcing spec s container) (.announcing spec s' container)
  | joining (spec : PodSpec) (fatal : Option RunError) :
      Like E (.joining spec fatal) (.joining spec fatal)
  | finishing (spec : PodSpec) {f f' : Finishing} (h : f.Like f') :
      Like E (.finishing spec f) (.finishing spec f')
  | deleting (spec : PodSpec) {outcome outcome' : Option RunError}
      (h : Option.Rel (RunError.Like E) outcome outcome') :
      Like E (.deleting spec outcome) (.deleting spec outcome')
  | ended {outcome outcome' : Option RunError}
      (h : Option.Rel (RunError.Like E) outcome outcome') :
      Like E (.ended outcome) (.ended outcome')
  | panicked : Like E .panicked .panicked

namespace Run.Phase.Like

variable {spec : PodSpec} {phase : Run.Phase}

theorem of_start (h : Run.Phase.Like E .start phase) : phase = .start := by
  cases h
  rfl

theorem of_creating (h : Run.Phase.Like E (.creating spec) phase) : phase = .creating spec := by
  cases h
  rfl

theorem of_streaming {s : Streaming} (h : Run.Phase.Like E (.streaming spec s) phase) :
    ∃ s', phase = .streaming spec s' ∧ s.Like s' := by
  cases h with
  | streaming _ hs => exact ⟨_, rfl, hs⟩

theorem of_announcing {s : Streaming} {container : String}
    (h : Run.Phase.Like E (.announcing spec s container) phase) :
    ∃ s', phase = .announcing spec s' container ∧ s.Like s' := by
  cases h with
  | announcing _ _ hs => exact ⟨_, rfl, hs⟩

theorem of_joining {fatal : Option RunError} (h : Run.Phase.Like E (.joining spec fatal) phase) :
    phase = .joining spec fatal := by
  cases h
  rfl

theorem of_finishing {f : Finishing} (h : Run.Phase.Like E (.finishing spec f) phase) :
    ∃ f', phase = .finishing spec f' ∧ f.Like f' := by
  cases h with
  | finishing _ hf => exact ⟨_, rfl, hf⟩

theorem of_deleting {outcome : Option RunError}
    (h : Run.Phase.Like E (.deleting spec outcome) phase) :
    ∃ outcome', phase = .deleting spec outcome' ∧
      Option.Rel (RunError.Like E) outcome outcome' := by
  cases h with
  | deleting _ ho => exact ⟨_, rfl, ho⟩

end Run.Phase.Like

/-- Two runs that are as far.  Their log tasks, and the failures of these, are not looked at. -/
structure Run.Like (E : FailuresLike) (r r' : Run) : Prop where
  step : r.step = r'.step
  extent : r.extent = r'.extent
  started : r.started = r'.started
  phase : r.phase.Like E r'.phase

namespace Run

variable {r q : Run} {now now' : Nat} {spec : PodSpec}

theorem Like.goTo (h : r.Like E q) {phase phase' : Phase} (hp : phase.Like E phase')
    (now now' : Nat) : (r.goTo phase now).Like E (q.goTo phase' now') :=
  ⟨h.step, h.extent, h.started, hp⟩

theorem Like.goToAfter (h : r.Like E q) {phase phase' : Phase} (hp : phase.Like E phase')
    (now now' pause pause' : Nat) :
    (r.goToAfter phase now pause).Like E (q.goToAfter phase' now' pause') :=
  ⟨h.step, h.extent, h.started, hp⟩

theorem Like.isOver (h : r.Like E q) : r.isOver = q.isOver := by
  have hphase := h.phase
  unfold Run.isOver
  generalize r.phase = phase at hphase
  generalize q.phase = phase' at hphase
  cases hphase <;> rfl

theorem Like.error (h : r.Like E q) :
    Option.Rel (RunError.Like E) r.result.error q.result.error := by
  have hphase := h.phase
  unfold result isPanicked error?
  rw [← h.step]
  generalize r.phase = phase at hphase
  generalize q.phase = phase' at hphase
  cases hphase with
  | ended h => exact h
  | panicked => exact .some (.same _)
  | _ => exact .none

theorem Like.error_of_like {x : Run} (h : r.Like List.Perm x) (h' : q.Like List.Perm x) :
    Option.Rel (RunError.Like List.Perm) r.result.error q.result.error :=
  RunError.rel_of_rel h.error h'.error

theorem Like.result_eq (h : r.Like Eq q) : r.result = q.result := by
  have herror : r.result.error = q.result.error := by
    have hrel := h.error
    generalize r.result.error = e at hrel
    generalize q.result.error = e' at hrel
    cases hrel with
    | none => rfl
    | some h => rw [RunError.like_eq_iff.1 h]
  have hname : r.result.name = q.result.name := congrArg StepDefinition.name h.step
  have htype : r.result.stepType = q.result.stepType := congrArg StepDefinition.stepType h.step
  generalize r.result = x at hname htype herror
  generalize q.result = y at hname htype herror
  obtain ⟨name, stepType, error⟩ := x
  obtain rfl : name = y.name := hname
  obtain rfl : stepType = y.stepType := htype
  obtain rfl : error = y.error := herror
  rfl

theorem beginStreaming_like (setup : Setup σ) (setup' : Setup τ)
    (hconfig : setup.config = setup'.config) (spec : PodSpec) :
    (beginStreaming setup spec).Like E (beginStreaming setup' spec) := by
  unfold beginStreaming
  rw [hconfig]
  exact .streaming spec ⟨Watch.like_begin _ _ _, rfl, rfl⟩

theorem beginFinishing_like (setup : Setup σ) (setup' : Setup τ)
    (hconfig : setup.config = setup'.config) (spec : PodSpec) :
    (beginFinishing setup spec).Like E (beginFinishing setup' spec) := by
  unfold beginFinishing
  rw [hconfig]
  exact .finishing spec ⟨Watch.like_begin _ _ _, rfl, .nil⟩

/-- two runs that have started log tasks which are alike, while no log task has failed -/
structure Forked (r q r' q' : Run) : Prop where
  tasks : ∃ new new', r'.tasks = r.tasks ++ new ∧ q'.tasks = q.tasks ++ new' ∧
    List.Forall₂ LogTask.Like new new'
  left : r'.failures = r.failures
  right : q'.failures = q.failures

theorem forked_nil {r' q' : Run} (hr : r'.tasks = r.tasks ∧ r'.failures = r.failures)
    (hq : q'.tasks = q.tasks ∧ q'.failures = q.failures) : Forked r q r' q' :=
  ⟨⟨[], [], hr.1.trans (List.append_nil _).symm, hq.1.trans (List.append_nil _).symm, .nil⟩, hr.2,
    hq.2⟩

theorem afterStreaming_like (spec : PodSpec) (h : r.Like E q) {s s' : Streaming} (hs : s.Like s')
    {outcome outcome' : Watch.Outcome} (ho : outcome.Like outcome') (now now' : Nat) :
    (r.afterStreaming spec s now outcome).Like E (q.afterStreaming spec s' now' outcome') ∧
      Forked r q (r.afterStreaming spec s now outcome)
        (q.afterStreaming spec s' now' outcome') := by
  cases ho with
  | @ok o o' ho =>
    have hphase : Phase.Like E (.announcing spec s o.name) (.announcing spec s' o'.name) :=
      ho.name ▸ .announcing spec o.name hs
    exact ⟨h.goTo hphase _ _, forked_nil ⟨rfl, rfl⟩ ⟨rfl, rfl⟩⟩
  | error e =>
    cases e with
    | podFinished pod phase goal pending =>
      -- only here are there new log tasks
      have hlate : lateNames s'.streamed s'.watch.pending =
          lateNames s.streamed s.watch.pending := by
        rw [hs.streamed, lateNames_like (Watch.pending_like hs.watch)]
      unfold afterStreaming
      rw [spawnLate_eq_beginAll, spawnLate_eq_beginAll, hlate, ← h.step, ← h.started]
      exact ⟨⟨rfl, h.extent, rfl, .joining spec none⟩,
        ⟨⟨_, _, rfl, rfl, LogTask.like_beginAll _ _ _ _ _ _⟩, rfl, rfl⟩⟩
    | nothingToWaitFor pod =>
      exact ⟨h.goTo (.joining spec none) _ _, forked_nil ⟨rfl, rfl⟩ ⟨rfl, rfl⟩⟩
    | _ => exact ⟨h.goTo (.joining spec _) _ _, forked_nil ⟨rfl, rfl⟩ ⟨rfl, rfl⟩⟩

theorem afterNotice_like (spec : PodSpec) (h : r.Like E q) {s s' : Streaming} (hs : s.Like s')
    (container : String) (now now' : Nat) :
    (r.afterNotice spec s container now).Like E (q.afterNotice spec s' container now') ∧
      Forked r q (r.afterNotice spec s container now) (q.afterNotice spec s' container now') := by
  have hphase : Phase.Like E
      (if s.watch.remaining then
        .streaming spec { s with polls := 0, streamed := container :: s.streamed }
        else .joining spec none)
      (if s'.watch.remaining then
        .streaming spec { s' with polls := 0, streamed := container :: s'.streamed }
        else .joining spec none) := by
    rw [← Watch.remaining_like hs.watch]
    split
    · exact .streaming spec ⟨hs.watch, rfl, by rw [hs.streamed]⟩
    · exact .joining spec none
  have htask : LogTask.Like (.begin r.started spec.ref r.step.name container now)
      (.begin q.started spec.ref q.step.name container now') :=
    ⟨h.started, rfl, congrArg StepDefinition.name h.step, rfl, .opening _ _⟩
  exact ⟨⟨h.step, h.extent, congrArg (· + 1) h.started, hphase⟩,
    ⟨⟨_, _, rfl, rfl, .cons htask .nil⟩, rfl, rfl⟩⟩

theorem spent_afterJoining (setup : Setup σ) (r : Run) (spec : PodSpec) (fatal : Option RunError)
    (now : Nat) :
    (r.afterJoining setup spec fatal now).tasks = r.tasks ∧
      (r.afterJoining setup spec fatal now).failures = r.failures := by
  unfold afterJoining
  dsimp only
  split <;> exact ⟨rfl, rfl⟩

theorem afterJoining_like {setup : Setup σ} {setup' : Setup τ}
    (hconfig : setup.config = setup'.config) (h : r.Like E q) (hfailures : E r.failures q.failures)
    (hempty : r.failures = [] ↔ q.failures = []) (spec : PodSpec) (fatal : Option RunError)
    (now now' : Nat) :
    (r.afterJoining setup spec fatal now).Like E (q.afterJoining setup' spec fatal now') := by
  have herror : Option.Rel (RunError.Like E) (logError? fatal r.failures)
      (logError? fatal q.failures) := by
    cases fatal with
    | some e => exact .some (.same e)
    | none =>
      simp only [logError?, List.isEmpty_iff]
      by_cases hr : r.failures = []
      · rw [if_pos hr, if_pos (hempty.1 hr)]
        exact .none
      · rw [if_neg hr, if_neg (mt hempty.2 hr)]
        exact .some (.joined hfailures)
  unfold afterJoining
  rw [← h.extent]
  generalize logError? fatal r.failures = e at herror
  generalize logError? fatal q.failures = e' at herror
  cases herror with
  | none =>
    cases r.extent with
    | whole => exact h.goTo (beginFinishing_like setup setup' hconfig spec) _ _
    | logs | finish => exact h.goTo (.ended .none) _ _
  | some herror =>
    cases r.extent with
    | whole => exact h.goTo (.deleting spec (.some herror)) _ _
    | logs | finish => exact h.goTo (.ended (.some herror)) _ _

theorem closeFinishing_like {setup : Setup σ} {setup' : Setup τ}
    (hconfig : setup.config = setup'.config) (h : r.Like E q) (spec : PodSpec)
    {report report' : FinishedPod} (hreport : report.Like report') (now now' : Nat) :
    (r.closeFinishing setup spec report now).Like E
      (q.closeFinishing setup' spec report' now') := by
  unfold closeFinishing
  dsimp only
  rw [← h.extent, ← hconfig, ← hreport.verdict]
  cases r.extent with
  | whole => exact ⟨h.step, rfl, h.started, .deleting spec (RunError.like_same _)⟩
  | logs | finish => exact ⟨h.step, rfl, h.started, .ended .none⟩

theorem spent_afterFinishing (setup : Setup σ) (r : Run) (spec : PodSpec) (f : Finishing)
    (now : Nat) (outcome : Watch.Outcome) :
    (r.afterFinishing setup spec f now outcome).tasks = r.tasks ∧
      (r.afterFinishing setup spec f now outcome).failures = r.failures := by
  have hclose (report : FinishedPod) :
      (r.closeFinishing setup spec report now).tasks = r.tasks ∧
        (r.closeFinishing setup spec report now).failures = r.failures := by
    unfold closeFinishing
    dsimp only
    split <;> exact ⟨rfl, rfl⟩
  unfold afterFinishing
  split
  next =>
    dsimp only
    split
    · exact ⟨rfl, rfl⟩
    · exact hclose _
  next => exact hclose _
  next => exact hclose _
  next => split <;> exact ⟨rfl, rfl⟩

theorem afterFinishing_like {setup : Setup σ} {setup' : Setup τ}
    (hconfig : setup.config = setup'.config) (h : r.Like E q) {f f' : Finishing} (hf : f.Like f')
    {outcome outcome' : Watch.Outcome} (ho : outcome.Like outcome') (spec : PodSpec)
    (now now' : Nat) :
    (r.afterFinishing setup spec f now outcome).Like E
      (q.afterFinishing setup' spec f' now' outcome') := by
  cases ho with
  | @ok o o' ho =>
    have hcontainers := noteContainer_like ho hf.containers
    have hnext : Finishing.Like { f with polls := 0, containers := noteContainer o f.containers }
        { f' with polls := 0, containers := noteContainer o' f'.containers } :=
      ⟨hf.watch, rfl, hcontainers⟩
    unfold afterFinishing
    dsimp only
    rw [← Watch.remaining_like hf.watch]
    split
    · exact h.goTo (.finishing spec hnext) _ _
    · exact closeFinishing_like hconfig h spec ⟨hf.watch.phase, hcontainers, .nil⟩ _ _
  | error e =>
    cases e with
    | nothingToWaitFor pod =>
      exact closeFinishing_like hconfig h spec ⟨hf.watch.phase, hf.containers, .nil⟩ _ _
    | podFinished pod phase goal pending =>
      exact closeFinishing_like hconfig h spec
        ⟨hf.watch.phase, hf.containers, Watch.pending_like hf.watch⟩ _ _
    | _ =>
      unfold afterFinishing
      dsimp only
      rw [← h.extent]
      cases r.extent with
      | whole => exact h.goTo (.deleting spec (RunError.like_same _)) _ _
      | logs | finish => exact h.goTo (.ended (RunError.like_same _)) _ _

end Run

end StepRunner
