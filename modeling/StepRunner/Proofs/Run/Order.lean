import StepRunner.Proofs.Run.Capture
import StepRunner.Proofs.Run.Verdict

/-!
# The order of a report

The containers of a report stand in the order in which the wait for the end of the pod was handed
them for the first time.  One look hands out at most one container, and passes the init containers
first.  So those that end together are reported init containers first; but an init container that
ends later than an app container, as one that runs beside it does, is reported behind it.

* `InitFirst`             init containers before app containers
* `PodSnapshot.Staged`    an app container has ended only where all init containers have
* `scan_passed`           what was passed on the way to a container and meets the goal did so before
* `Kept`                  what such a wait has collected, in which order
* `Kept.note`             one more container
* `Run.Orders`            a run in this wait, or behind it
* `ordered_of_play`       the order of a report
-/

namespace StepRunner

/-! ## orders -/

/-- init containers before app containers -/
def InitFirst (os : List Observation) : Prop :=
  os.Pairwise fun o o' => o.role = .app → o'.role = .app

/-- Containers that keep their role from snapshot to snapshot, where an app container has ended only
if all init containers have. -/
structure Staged (shown : List PodSnapshot) : Prop where
  roles : ∀ s ∈ shown, ∀ s' ∈ shown, ∀ o ∈ s.observations, ∀ o' ∈ s'.observations,
    o.name = o'.name → o.role = o'.role
  inits : ∀ s ∈ shown, ∀ o ∈ s.observations, o.role = .app → o.state = .terminated →
    ∀ s' ∈ shown, ∀ o' ∈ s'.observations, o'.role = .init →
      ∃ x ∈ s.observations, x.name = o'.name ∧ x.state = .terminated

theorem initFirst_iff {os : List Observation} :
    InitFirst os ↔ (os.map (·.role)).Pairwise fun a b => a = .app → b = .app := by
  rw [List.pairwise_map]
  rfl

theorem initFirst_observations (s : PodSnapshot) : InitFirst s.observations := by
  rw [PodSnapshot.observations, InitFirst, List.pairwise_append]
  refine ⟨?_, ?_, ?_⟩
  · refine List.pairwise_map.2 (List.pairwise_of_forall fun a b h => ?_)
    cases h
  · exact List.pairwise_map.2 (List.pairwise_of_forall fun _ _ _ => rfl)
  · intro o _ o' ho' _
    obtain ⟨status, -, rfl⟩ := List.mem_map.1 ho'
    rfl

theorem Staged.of_append {earlier later : List PodSnapshot} (h : Staged (earlier ++ later)) :
    Staged earlier := by
  have hsub {s : PodSnapshot} (hs : s ∈ earlier) : s ∈ earlier ++ later :=
    List.mem_append_left _ hs
  exact ⟨fun s hs s' hs' => h.roles s (hsub hs) s' (hsub hs'),
    fun s hs o ho hr ht s' hs' => h.inits s (hsub hs) o ho hr ht s' (hsub hs')⟩

theorem InitFirst.role_of_firstFailed {os : List Observation} (h : InitFirst os)
    {o : Observation} (ho : o ∈ os) (hr : o.role = .init) (hf : o.isFailure = true) :
    ∃ first, firstFailed? os = some first ∧ first.role = .init := by
  obtain ⟨first, hfirst⟩ := Option.isSome_iff_exists.1 (List.find?_isSome.2 ⟨o, ho, hf⟩)
  refine ⟨first, hfirst, ?_⟩
  obtain ⟨-, before, after, rfl, hbefore⟩ := List.find?_eq_some_iff_append.1 hfirst
  obtain hmem | hmem := List.mem_append.1 ho
  · have hpassed := hbefore o hmem
    rw [hf] at hpassed
    cases hpassed
  · obtain rfl | hmem := List.mem_cons.1 hmem
    · exact hr
    · cases hrole : first.role with
      | init => rfl
      | app =>
        have hafter := List.rel_of_pairwise_cons (List.pairwise_append.1 h).2.1 hmem hrole
        rw [hr] at hafter
        cases hafter

/-! ## what a look passes -/

/-- A container that was passed on the way to the one that is handed out, and is where the watch is
to see it, was known to be there before. -/
theorem Watch.scan_passed {goal : Goal} {known known' : Dict Observation}
    {os : List Observation} {o : Observation} (h : scan goal known os = (known', some o)) :
    ∃ before after, os = before ++ o :: after ∧ ∀ x ∈ before, goal.met x = true →
      ∃ old, known.get? x.name = some old ∧ goal.met old = true := by
  induction os generalizing known with
  | nil => cases h
  | cons x os ih =>
    cases hx : isNews goal known x && goal.met x with
    | true =>
      rw [scan_cons_found hx] at h
      cases h
      exact ⟨[], os, rfl, by simp⟩
    | false =>
      rw [scan_cons_passed hx] at h
      obtain ⟨before, after, rfl, hbefore⟩ := ih h
      refine ⟨x :: before, after, rfl, List.forall_mem_cons.2 ⟨met_of_passed hx, ?_⟩⟩
      intro y hy hm
      obtain ⟨old, hold, hmet⟩ := hbefore y hy hm
      rw [Dict.get?_insert] at hold
      split at hold
      next hname =>
        -- `x` itself, which was passed
        cases hold
        rw [hname]
        exact met_of_passed hx hmet
      next => exact ⟨old, hold, hmet⟩

/-! ## what is kept -/

section
variable {o : Observation} {l : List Observation}

theorem roles_noteContainer (h : ∀ old ∈ l, old.name = o.name → old.role = o.role)
    (hmem : o.name ∈ l.map (·.name)) : (noteContainer o l).map (·.role) = l.map (·.role) := by
  induction l with
  | nil => cases hmem
  | cons old rest ih =>
    obtain ⟨hold, hrest⟩ := List.forall_mem_cons.1 h
    unfold noteContainer
    split
    next heq => rw [List.map_cons, List.map_cons, hold heq]
    next hne =>
      have hmem' := (List.mem_cons.1 hmem).resolve_left fun heq => hne heq.symm
      rw [List.map_cons, List.map_cons, ih hrest hmem']

theorem noteContainer_of_new (h : o.name ∉ l.map (·.name)) : noteContainer o l = l ++ [o] := by
  induction l with
  | nil => rfl
  | cons old rest ih =>
    rw [List.map_cons, List.mem_cons, not_or] at h
    rw [noteContainer, if_neg fun heq => h.1 heq.symm, ih h.2]
    rfl

end

/-- What the wait for the end of a pod has collected of the containers that it was handed: the
latest of each, in the order in which they were first handed over.  Beside an app container there
are all init containers that had ended when it was seen. -/
structure Kept (containers : List Observation) (shown : List PodSnapshot)
    (done : List Observation) : Prop where
  collects : Collects containers done
  first : (containers.map (·.name)).Pairwise fun a b =>
    (done.map (·.name)).idxOf a < (done.map (·.name)).idxOf b
  beside : ∀ o ∈ containers, o.role = .app → o.state = .terminated ∧ ∃ s ∈ shown,
    o ∈ s.observations ∧ ∀ x ∈ s.observations, x.role = .init → x.state = .terminated →
      ∃ y ∈ containers, y.name = x.name
  staged : Staged shown → InitFirst containers

variable {containers done : List Observation} {shown : List PodSnapshot}

theorem kept_nil : Kept [] [] [] :=
  ⟨collects_nil, .nil, by simp, fun _ => .nil⟩

/-- the containers collected are those that were handed over -/
theorem Collects.mem_names_iff (h : Collects containers done) {name : String} :
    name ∈ containers.map (·.name) ↔ name ∈ done.map (·.name) := by
  constructor
  · intro hmem
    obtain ⟨o, ho, rfl⟩ := List.mem_map.1 hmem
    exact List.mem_map_of_mem (mem_of_latest? ((h.latest o).1 ho)).1
  · intro hmem
    obtain ⟨o, ho, rfl⟩ := List.mem_map.1 hmem
    obtain ⟨x, hx⟩ := exists_latest? ho
    have hname := (mem_of_latest? hx).2
    rw [← hname] at hx ⊢
    exact List.mem_map_of_mem ((h.latest x).2 hx)

theorem Kept.append (h : Kept containers shown done) (s : PodSnapshot) :
    Kept containers (shown ++ [s]) done := by
  refine ⟨h.collects, h.first, fun o ho hr => ?_, fun hs => h.staged hs.of_append⟩
  obtain ⟨ht, s', hs', hbeside⟩ := h.beside o ho hr
  exact ⟨ht, s', List.mem_append_left _ hs', hbeside⟩

theorem Kept.first_note (h : Kept containers shown done) (o : Observation) :
    ((noteContainer o containers).map (·.name)).Pairwise fun a b =>
      ((done ++ [o]).map (·.name)).idxOf a < ((done ++ [o]).map (·.name)).idxOf b := by
  rw [List.map_append, List.map_singleton]
  have hkeep {name : String} (hmem : name ∈ containers.map (·.name)) :
      (done.map (·.name) ++ [o.name]).idxOf name = (done.map (·.name)).idxOf name :=
    List.idxOf_append_of_mem (h.collects.mem_names_iff.1 hmem)
  have hold : (containers.map (·.name)).Pairwise fun a b =>
      (done.map (·.name) ++ [o.name]).idxOf a < (done.map (·.name) ++ [o.name]).idxOf b := by
    refine h.first.imp_of_mem fun ha hb hlt => ?_
    rw [hkeep ha, hkeep hb]
    exact hlt
  rw [names_noteContainer]
  split
  next => exact hold
  next hnew =>
    refine List.pairwise_append.2 ⟨hold, List.pairwise_singleton .., fun a ha b hb => ?_⟩
    obtain rfl := List.mem_singleton.1 hb
    have hlast : (done.map (·.name) ++ [o.name]).idxOf o.name = (done.map (·.name)).length := by
      rw [List.idxOf_append_of_notMem fun hmem => hnew (h.collects.mem_names_iff.2 hmem)]
      simp
    rw [hlast, hkeep ha]
    exact List.idxOf_lt_length_of_mem (h.collects.mem_names_iff.1 ha)

variable {f : Finishing} {s : PodSnapshot} {o : Observation}

/-- beside the container that a look hands out, all init containers that have ended are known to
have, unless it is an init container itself -/
theorem Finishing.Follows.beside (hf : f.Follows shown) (hs : (f.watch.absorb s).2 = some o)
    (hr : o.role = .app) : ∀ x ∈ s.observations, x.role = .init → x.state = .terminated →
      ∃ y ∈ f.containers, y.name = x.name := by
  intro x hx hrole hstate
  have hscan := Watch.absorb_scan f.watch s
  rw [hs] at hscan
  obtain ⟨before, after, hcut, hbefore⟩ := Watch.scan_passed hscan
  have hfirst := initFirst_observations s
  rw [hcut] at hx hfirst
  obtain hmem | hmem := List.mem_append.1 hx
  · have hm : f.watch.goal.met x = true := by
      rw [hf.goal]
      simp [Goal.met, hstate]
    obtain ⟨old, hold, hmet⟩ := hbefore x hmem hm
    exact hf.handedOut x.name old hold hmet
  · obtain rfl | hmem := List.mem_cons.1 hmem
    · rw [hr] at hrole
      cases hrole
    · have happ := List.rel_of_pairwise_cons (List.pairwise_append.1 hfirst).2.1 hmem hr
      rw [hrole] at happ
      cases happ

/-- **One more container** of a pod whose containers end in their order. -/
theorem Kept.initFirst_note (h : Kept f.containers shown done) (hf : f.Follows shown)
    (ho : o ∈ s.observations) (hstaged : Staged (shown ++ [s])) :
    InitFirst (noteContainer o f.containers) := by
  have hfirst := h.staged hstaged.of_append
  have hlast : s ∈ shown ++ [s] := List.mem_append_right _ List.mem_cons_self
  by_cases hmem : o.name ∈ f.containers.map (·.name)
  · rw [initFirst_iff, roles_noteContainer ?_ hmem]
    · exact initFirst_iff.1 hfirst
    · intro old hold hname
      obtain ⟨-, s', hs', hmem'⟩ := hf.containers old hold
      exact hstaged.roles s' (List.mem_append_left _ hs') s hlast old hmem' o ho hname
  · rw [noteContainer_of_new hmem]
    refine List.pairwise_append.2 ⟨hfirst, List.pairwise_singleton .., fun x hx y hy happ => ?_⟩
    obtain rfl := List.mem_singleton.1 hy
    cases hrole : y.role with
    | app => rfl
    | init =>
      -- the app container ended when `y` had, and `y` was handed over before it
      obtain ⟨ht, s', hs', hmem', hbeside⟩ := h.beside x hx happ
      obtain ⟨z, hz, hname, hstate⟩ :=
        hstaged.inits s' (List.mem_append_left _ hs') x hmem' happ ht s hlast y ho hrole
      have hzrole : z.role = .init := by
        rw [hstaged.roles s' (List.mem_append_left _ hs') s hlast z hz y ho hname, hrole]
      obtain ⟨w, hw, hwname⟩ := hbeside z hz hzrole hstate
      rw [← hname, ← hwname] at hmem
      exact absurd (List.mem_map_of_mem hw) hmem

theorem Kept.note (h : Kept f.containers shown done) (hf : f.Follows shown)
    (hs : (f.watch.absorb s).2 = some o) :
    Kept (noteContainer o f.containers) (shown ++ [s]) (done ++ [o]) := by
  have hscan := Watch.absorb_scan f.watch s
  rw [hs] at hscan
  obtain ⟨hmem, hmet⟩ := Watch.scan_found hscan
  rw [hf.goal] at hmet
  refine ⟨h.collects.note o, h.first_note o, fun x hx happ => ?_, h.initFirst_note hf hmem⟩
  obtain rfl | hx := mem_noteContainer hx
  · refine ⟨by simpa [Goal.met] using hmet, s, by simp, hmem, fun y hy hrole hstate => ?_⟩
    exact name_noteContainer x (hf.beside hs happ y hy hrole hstate)
  · obtain ⟨ht, s', hs', hmem', hbeside⟩ := h.beside x hx happ
    refine ⟨ht, s', List.mem_append_left _ hs', hmem', fun y hy hrole hstate => ?_⟩
    exact name_noteContainer o (hbeside y hy hrole hstate)

theorem Kept.look (h : Kept f.containers shown done) (hf : f.Follows shown)
    {answer : Except ClusterError PodSnapshot} {watch : Watch} {outcome : Option Watch.Outcome}
    (hlook : f.watch.Look f.polls answer watch outcome) :
    Kept ((outcome.bind Except.toOption).elim f.containers (noteContainer · f.containers))
      (shown ++ answer.toOption.toList) (done ++ (outcome.bind Except.toOption).toList) := by
  cases hlook with
  | refused =>
    have hsame : shown ++ [] = shown ∧ done ++ [] = done :=
      ⟨List.append_nil _, List.append_nil _⟩
    rw [← hsame.1, ← hsame.2] at h
    exact h
  | handed hs => exact h.note hf hs
  | @nothingLeft s | @podFinished s | @limitReached s | @again s =>
    have hnext := h.append s
    rw [← List.append_nil done] at hnext
    exact hnext

/-- init containers stand first just where they were handed over first -/
theorem Kept.initFirst_iff (h : Kept containers shown done) :
    InitFirst containers ↔ ∀ o ∈ containers, ∀ o' ∈ containers, o.role = .init → o'.role = .app →
      (done.map (·.name)).idxOf o.name < (done.map (·.name)).idxOf o'.name := by
  have hfirst := List.pairwise_map.1 h.first
  constructor
  · intro hinit o ho o' ho' hr hr'
    obtain ⟨before, after, rfl⟩ := List.append_of_mem ho
    obtain hmem | hmem := List.mem_append.1 ho'
    · have happ := (List.pairwise_append.1 hinit).2.2 o' hmem o List.mem_cons_self hr'
      rw [hr] at happ
      cases happ
    · obtain rfl | hmem := List.mem_cons.1 hmem
      · rw [hr] at hr'
        cases hr'
      · exact List.rel_of_pairwise_cons (List.pairwise_append.1 hfirst).2.1 hmem
  · intro hall
    refine hfirst.imp_of_mem fun {o o'} ho ho' hlt hr => ?_
    cases hr' : o'.role with
    | app => rfl
    | init => exact absurd (hall o' ho' o ho hr' hr) (Nat.lt_asymm hlt)

/-! ## a run that collects -/

namespace Run

variable {σ : Type} {setup : Setup σ} {spec : PodSpec} {past : List (RunEvent σ)} {r : Run}
  {e : RunEvent σ} {P : List Observation → Prop}

/-- what holds of all that a run has collected: in its wait for the end of the pod, or its report -/
structure Collected (P : List Observation → Prop) (r : Run) : Prop where
  waiting : ∀ {pod f}, r.phase = .finishing pod f → P f.containers
  reported : ∀ {report}, r.report = some report → P report.containers

/-- a run in the wait for the end of its pod, or behind it -/
def Orders (setup : Setup σ) (past : List (RunEvent σ)) (r : Run) : Prop :=
  r.Collected fun containers =>
    Kept containers (past.flatMap (RunEvent.shown setup)) (past.flatMap (RunEvent.finished setup))

theorem collected_goTo (h : ∀ {report}, r.report = some report → P report.containers)
    {phase : Phase} (hp : ∀ pod f, phase ≠ .finishing pod f) (now : Nat) :
    (r.goTo phase now).Collected P :=
  ⟨fun {pod f} heq => absurd heq (hp pod f), h⟩

theorem collected_closeFinishing {report : FinishedPod} (h : P report.containers) (now : Nat) :
    (r.closeFinishing setup spec report now).Collected P := by
  have hreport {given : FinishedPod} (hg : some report = some given) : P given.containers := by
    cases hg
    exact h
  unfold closeFinishing
  dsimp only
  split
  next => exact collected_goTo hreport (by simp) now
  next => exact collected_goTo hreport (by simp) now

theorem Collected.afterFinishing {f : Finishing} {watch : Watch} (hn : r.report = none)
    {outcome : Watch.Outcome} (hnone : outcome.toOption = none → P f.containers)
    (hsome : ∀ o, outcome = .ok o → P (noteContainer o f.containers)) (now : Nat) :
    (r.afterFinishing setup spec { f with watch } now outcome).Collected P := by
  have hreport {report : FinishedPod} (hr : r.report = some report) : P report.containers := by
    cases hn.symm.trans hr
  unfold Run.afterFinishing
  split
  next o =>
    dsimp only
    split
    next =>
      refine ⟨fun hp => ?_, hreport⟩
      cases hp
      exact hsome o rfl
    next => exact collected_closeFinishing (hsome o rfl) now
  next => exact collected_closeFinishing (hnone rfl) now
  next => exact collected_closeFinishing (hnone rfl) now
  next =>
    split
    next => exact collected_goTo hreport (by simp) now
    next => exact collected_goTo hreport (by simp) now

theorem finished_of_answer {f : Finishing} (hp : e.before.phase = .finishing spec f)
    {answer : Except ClusterError PodSnapshot} (hshown : e.shown setup = answer.toOption.toList)
    {watch : Watch} {outcome : Option Watch.Outcome}
    (hlook : f.watch.Look f.polls answer watch outcome) :
    e.finished setup = (outcome.bind Except.toOption).toList := by
  cases hlook with
  | refused => exact RunEvent.finished_of_shown hshown
  | handed hs | nothingLeft hs | podFinished hs | limitReached hs | again hs =>
    rw [RunEvent.finished_of_look hp hshown, hs]
    rfl

theorem Orders.unshown (h : Orders setup past e.before) (hs : e.shown setup = [])
    (hp : ∀ {pod f}, e.after.phase = .finishing pod f → e.before.phase = .finishing pod f)
    (hr : e.after.report = e.before.report) : Orders setup (past ++ [e]) e.after := by
  rw [Orders, RunEvent.flatMap_concat_of_nil hs,
    RunEvent.flatMap_concat_of_nil (RunEvent.finished_of_shown hs)]
  exact ⟨fun hf => h.waiting (hp hf), fun hreport => h.reported (hr.symm.trans hreport)⟩

theorem Orders.look (h : Orders setup past e.before) {f : Finishing}
    (hp : e.before.phase = .finishing spec f) (hn : e.before.report = none)
    (hf : f.Follows (past.flatMap (RunEvent.shown setup)))
    {answer : Except ClusterError PodSnapshot} (hshown : e.shown setup = answer.toOption.toList)
    {watch : Watch} {outcome : Option Watch.Outcome}
    (hlook : f.watch.Look f.polls answer watch outcome) (now pause : Nat)
    (hagain : outcome = none → e.after =
      e.before.goToAfter (.finishing spec { f with watch, polls := f.polls + 1 }) now pause)
    (hlast : ∀ result, outcome = some result →
      e.after = e.before.afterFinishing setup spec { f with watch } now result) :
    Orders setup (past ++ [e]) e.after := by
  have hkept := (h.waiting hp).look hf hlook
  rw [Orders, RunEvent.flatMap_concat, RunEvent.flatMap_concat, hshown,
    finished_of_answer hp hshown hlook]
  cases outcome with
  | none =>
    rw [hagain rfl]
    refine ⟨fun hp' => ?_, fun hr => ?_⟩
    · cases hp'
      exact hkept
    · cases hn.symm.trans hr
  | some result =>
    rw [hlast result rfl]
    refine Collected.afterFinishing hn (fun hnone => ?_) (fun o ho => ?_) now
    · rw [Option.bind_some, hnone] at hkept ⊢
      exact hkept
    · subst ho
      exact hkept

theorem Orders.event (h : Orders setup past e.before)
    (hw : e.before.Waits setup spec (past.flatMap (RunEvent.shown setup))) (hv : e.Valid setup) :
    Orders setup (past ++ [e]) e.after := by
  have hlate := hw.not_early
  obtain ⟨task, r, w, r', w'⟩ := e
  cases task with
  | some id =>
    have hact : r.actTask setup id w = some (r', w') := hv
    obtain ⟨t, result, -, ht, rfl, rfl⟩ := transition_of_actTask hact
    refine h.unshown ?_ (fun hp => hp) rfl
    obtain hcalls | hcalls := ht.calls.2
    · exact RunEvent.shown_of_no_call hcalls
    · exact RunEvent.shown_of_opened hcalls
  | none =>
    have ht : Transition setup r w r' w' := transition_of_act hv
    cases ht with
    -- these steps are made before the wait only
    | cancelledEarly hp | buildPanicked hp | buildRefused hp | built hp | createRefused hp
    | created hp | streamingLook hp | streamingAgain hp | announced hp | joinedPanicked hp
    | joined hp | joinedAll hp => simp [isEarly, hp] at hlate
    | asked => exact h.unshown (RunEvent.shown_of_no_call rfl) (fun hp => hp) rfl
    | cancelled => exact h.unshown (RunEvent.shown_of_no_call rfl) (fun hp => by cases hp) rfl
    | finishingLook hp _ _ ha =>
      obtain ⟨rfl, hn, hf⟩ := hw.follows hp
      refine h.look hp hn hf (RunEvent.shown_of_fetch rfl) (Watch.look_of_answer ha) w.now
        setup.config.pollInterval.toNat (by simp) fun result heq => ?_
      cases heq
      rfl
    | finishingAgain hp _ _ ha =>
      obtain ⟨rfl, hn, hf⟩ := hw.follows hp
      exact h.look hp hn hf (RunEvent.shown_of_fetch rfl) (Watch.look_of_answer ha) _ _
        (fun _ => rfl) (by simp)
    | deleteRefused hp | deleted hp =>
      exact h.unshown (RunEvent.shown_of_deleted rfl) (fun hp => by cases hp) rfl

end Run

namespace Crew

variable {σ : Type} {setup : Setup σ} {c : Crew σ} {i : Nat} {r : Run} {spec : PodSpec}

theorem orders_of_play (hr : c.runs[i]? = some r) (hp : r.phase = Run.beginFinishing setup spec)
    (hn : r.report = none) (moves : List Move) :
    ∃ r', (c.play setup moves).runs[i]? = some r' ∧ r'.Orders setup (c.events setup i moves) := by
  have hwaits : r.Waits setup spec ([].flatMap (RunEvent.shown setup)) :=
    .waiting hp hn (Finishing.follows_begin spec.ref setup.config.pollLimit)
  have horders : r.Orders setup [] := by
    refine ⟨fun hp' => ?_, fun hreport => ?_⟩
    · cases hp.symm.trans hp'
      exact kept_nil
    · cases hn.symm.trans hreport
  have hplay := play_induction
    (Q := fun past r => r.Waits setup spec (past.flatMap (RunEvent.shown setup)) ∧
      r.Orders setup past)
    (fun past e h hvalid => by
      refine ⟨?_, h.2.event h.1 hvalid⟩
      rw [RunEvent.flatMap_concat]
      exact h.1.event hvalid) moves hr ⟨hwaits, horders⟩
  obtain ⟨r', hr', -, hlast⟩ := hplay
  exact ⟨r', hr', hlast⟩

/-- **The order of a report** is that in which the wait for the end of the pod was handed its
containers for the first time.  So init containers stand first just where all of them were handed
over before any app container.  They do if the containers of the pod keep their roles and no app
container is shown terminated beside an init container that is not, and then the first failure is
that of an init container if one of them has failed. -/
theorem ordered_of_play (hr : c.runs[i]? = some r) (hp : r.phase = Run.beginFinishing setup spec)
    (hn : r.report = none) (moves : List Move) {report : FinishedPod}
    (hreport : (c.play setup moves).runs[i]?.bind (·.report) = some report) :
    let shown := (c.events setup i moves).flatMap (RunEvent.shown setup)
    let done := (c.events setup i moves).flatMap (RunEvent.finished setup)
    let first := fun o : Observation => (done.map (·.name)).idxOf o.name
    (∀ o, o ∈ report.containers ↔ latest? done o.name = some o) ∧
      (report.containers.Pairwise fun o o' => first o < first o') ∧
      (InitFirst report.containers ↔ ∀ o ∈ report.containers, ∀ o' ∈ report.containers,
        o.role = .init → o'.role = .app → first o < first o') ∧
      (Staged shown → InitFirst report.containers) ∧
      (InitFirst report.containers → ∀ o ∈ report.containers, o.role = .init →
        o.isFailure = true → ∃ o', firstFailed? report.containers = some o' ∧ o'.role = .init) := by
  intro shown done first
  obtain ⟨r', hr', horders⟩ := orders_of_play hr hp hn moves
  rw [hr'] at hreport
  have hkept := horders.reported hreport
  have hfirst := List.pairwise_map.1 hkept.first
  exact ⟨hkept.collects.latest, hfirst, hkept.initFirst_iff, hkept.staged,
    fun hinit o ho hrole hfails => hinit.role_of_firstFailed ho hrole hfails⟩

/-- an init container that runs beside an app container, and ends after it -/
theorem ordered_of_sidecar :
    let setup : Setup (List PodSnapshot) := ⟨replay, {}, fun _ => .panicked⟩
    let spec : PodSpec := { name := "p", namespaceName := "ns", containers := [] }
    let beside : PodSnapshot :=
      { phase := .running, initStatuses := [.running "i" false], statuses := [.terminated "a" 1] }
    let last : PodSnapshot :=
      { phase := .failed, initStatuses := [.terminated "i" 2], statuses := [.terminated "a" 1] }
    let r : Run :=
      { step := { name := "s", image := "" }, extent := .finish
        phase := Run.beginFinishing setup spec }
    let c := ofRuns [r] { state := [beside, last] } none
    let moves := List.replicate 4 (.act (.run 0))
    ∃ report, (c.play setup moves).runs[0]?.bind (·.report) = some report ∧
      report.containers.map (fun o => (o.name, o.role)) = [("a", .app), ("i", .init)] ∧
      (firstFailed? report.containers).map (·.name) = some "a" ∧
      ¬ Staged ((c.events setup 0 moves).flatMap (RunEvent.shown setup)) := by
  intro setup spec beside last r c moves
  have hcontainers : ((c.play setup moves).runs[0]?.bind (·.report)).map
      (fun report => report.containers.map fun o => (o.name, o.role)) =
        some [("a", .app), ("i", .init)] := by decide +kernel
  have hfirst : ((c.play setup moves).runs[0]?.bind (·.report)).bind
      (fun report => (firstFailed? report.containers).map (·.name)) = some "a" := by
    decide +kernel
  obtain ⟨report, hreport, hnames⟩ := Option.map_eq_some_iff.1 hcontainers
  rw [hreport] at hfirst
  refine ⟨report, hreport, hnames, hfirst, fun hstaged => ?_⟩
  obtain ⟨-, -, -, hinit, -⟩ := ordered_of_play (c := c) (r := r) rfl rfl rfl moves hreport
  have hroles := initFirst_iff.1 (hinit hstaged)
  have hgiven : report.containers.map (·.role) = [.app, .init] := by
    have hsnd := congrArg (List.map Prod.snd) hnames
    rwa [List.map_map] at hsnd
  rw [hgiven] at hroles
  revert hroles
  decide

end Crew

end StepRunner
