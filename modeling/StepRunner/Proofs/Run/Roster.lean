import StepRunner.Proofs.Run.Finish
import StepRunner.Proofs.Run.Forwarding
import StepRunner.Proofs.Wait.Edges

/-!
# Whose logs are streamed

The containers that a run hands out while it streams logs, and those whose logs it captures late.
A container is handed out again only if it was seen ready, then not ready, then ready again; and
what is captured late was never handed out.

* `Flaps`                    a container that is ready, then not, then ready again
* `RunEvent.observed`        what a step was shown while it waited for containers to be ready
* `RunEvent.handed`          the container that a step has handed out
* `RunEvent.noticed`         the container whose notice it has sent
* `RunEvent.late`            the containers whose logs are captured without a notice
* `Run.Roster`               a run that streams logs, against its steps so far
* `Roster.event`             every step leaves it so
-/

namespace StepRunner

variable {σ : Type}

/-! ## flapping -/

/-- whether some observations show a container ready, then not ready, then ready again -/
def Flaps (os : List Observation) (name : String) : Prop :=
  ∃ a b c, [a, b, c].Sublist os ∧ (a.name = name ∧ a.ready = true) ∧
    (b.name = name ∧ b.ready = false) ∧ c.name = name ∧ c.ready = true

theorem Flaps.mono {os os' : List Observation} {name : String} (h : Flaps os name)
    (hs : os.Sublist os') : Flaps os' name := by
  obtain ⟨a, b, c, hsub, hobs⟩ := h
  exact ⟨a, b, c, hsub.trans hs, hobs⟩

theorem Flaps.two_le_countP {os : List Observation} {name : String} (h : Flaps os name) :
    2 ≤ os.countP fun o => o.name = name && o.ready := by
  obtain ⟨a, b, c, hsub, ⟨ha, ha'⟩, ⟨-, hb'⟩, hc, hc'⟩ := h
  have hle := hsub.countP_le (p := fun o => o.name = name && o.ready)
  simpa [List.countP_cons, ha, ha', hb', hc, hc'] using hle

theorem Rises.flaps {past : List Observation} {old o : Observation} (h : Rises .ready past o)
    (hold : old ∈ past) (hname : old.name = o.name) (hr : old.ready = true) :
    Flaps (past ++ [o]) o.name := by
  obtain ⟨front, more, rfl⟩ := List.append_of_mem hold
  obtain ⟨x, hx, hxname, hunmet⟩ := h.exists_unmet hname hr
  refine ⟨old, x, o, ?_, ⟨hname, hr⟩, ⟨hxname, hunmet⟩, rfl, h.1⟩
  have hfirst : [old, x].Sublist (front ++ old :: more) :=
    ((List.singleton_sublist.2 hx).cons_cons old).trans (List.sublist_append_right front _)
  exact hfirst.append (List.Sublist.refl [o])

/-! ## late capture -/

/-- whether a container has started, so that it may have logs -/
def Observation.hasStarted (o : Observation) : Bool :=
  !(o.state = .waiting || o.state = .unknown)

/-- the containers of some observations that have started, each once, without those in `streamed` -/
def lateNames (streamed : List String) : List Observation → List String
  | [] => []
  | o :: rest =>
    if o.state = .waiting ∨ o.state = .unknown ∨ o.name ∈ streamed then lateNames streamed rest
    else o.name :: lateNames (o.name :: streamed) rest

theorem mem_lateNames {streamed : List String} {os : List Observation} {name : String} :
    name ∈ lateNames streamed os ↔
      name ∉ streamed ∧ ∃ o ∈ os, o.name = name ∧ o.hasStarted = true := by
  induction os generalizing streamed with
  | nil => simp [lateNames]
  | cons o os ih =>
    unfold lateNames
    split
    next h =>
      rw [ih]
      refine and_congr_right fun hname => ?_
      have hno : ¬ (o.name = name ∧ o.hasStarted = true) := by
        rintro ⟨rfl, hstarted⟩
        simp [Observation.hasStarted] at hstarted
        simp [hstarted, hname] at h
      simp [hno]
    next h =>
      rw [not_or, not_or] at h
      have hstarted : o.hasStarted = true := by simp [Observation.hasStarted, h]
      rw [List.mem_cons, ih]
      by_cases hname : name = o.name
      · subst hname
        simp [h, hstarted]
      · have hne : o.name ≠ name := fun heq => hname heq.symm
        simp [hname, hne]

theorem nodup_lateNames (streamed : List String) (os : List Observation) :
    (lateNames streamed os).Nodup := by
  induction os generalizing streamed with
  | nil => exact .nil
  | cons o os ih =>
    unfold lateNames
    split
    next => exact ih streamed
    next =>
      refine List.nodup_cons.2 ⟨fun hmem => ?_, ih _⟩
      exact (mem_lateNames.1 hmem).1 List.mem_cons_self

namespace Watch

theorem pending_of_remaining {w : Watch} (h : w.remaining = false) : w.pending = [] := by
  rw [pending, List.filter_eq_nil_iff]
  intro o ho
  obtain ⟨name, hname, hknown⟩ := List.mem_filterMap.1 ho
  obtain ⟨o', ho', hmet⟩ := (met_of_remaining h).2 name hname
  rw [hknown] at ho'
  cases ho'
  simpa using hmet

theorem recordedOf_sublist (w : Watch) (answer : Except ClusterError PodSnapshot) :
    (w.recordedOf answer).Sublist (answer.toOption.toList.flatMap (·.observations)) := by
  cases answer with
  | error e => exact List.nil_sublist _
  | ok s =>
    show (recorded w.goal w.known s.observations).Sublist (s.observations ++ [])
    rw [List.append_nil]
    exact recorded_sublist w.goal w.known s.observations

end Watch

/-! ## what a step hands out -/

namespace RunEvent

/-- what a step was shown of containers while the run waited for them to be ready -/
def observed (setup : Setup σ) (e : RunEvent σ) : List Observation :=
  match e.before.phase with
  | .streaming .. => (e.shown setup).flatMap (·.observations)
  | _ => []

/-- the container that a step has handed out ready -/
def handed (e : RunEvent σ) : List String :=
  match e.before.phase, e.after.phase with
  | .streaming .., .announcing _ _ container => [container]
  | _, _ => []

/-- the container whose notice a step has sent -/
def noticed (e : RunEvent σ) : List String :=
  match e.before.phase, e.after.phase with
  | .announcing _ _ container, .streaming .. => [container]
  | .announcing _ _ container, .joining .. => [container]
  | _, _ => []

/-- the containers whose logs are captured late: they have started and were not handed out, and the
wait for containers to be ready is over without them -/
def late (setup : Setup σ) (e : RunEvent σ) : List String :=
  match e.before.phase, e.after.phase with
  | .streaming spec s, .joining _ none =>
    lateNames s.streamed
      (s.watch.answer s.polls (e.seen.fetch setup.platform spec.ref).1).1.pending
  | _, _ => []

/-- whether the token had not fired when the run was streaming logs -/
def Uncancelled (e : RunEvent σ) : Prop := e.before.streamed? ≠ none → e.seen.cancelled = false

variable {e : RunEvent σ}

theorem quiet_of_phase (setup : Setup σ) (h : e.after.phase = e.before.phase) :
    e.handed = [] ∧ e.noticed = [] ∧ e.late setup = [] := by
  unfold handed noticed late
  rw [h]
  cases e.before.phase <;> exact ⟨rfl, rfl, rfl⟩

theorem quiet_of_unstreamed (setup : Setup σ) (h : e.before.streamed? = none) :
    e.handed = [] ∧ e.noticed = [] ∧ e.late setup = [] := by
  unfold Run.streamed? at h
  unfold handed noticed late
  cases hp : e.before.phase with
  | streaming | announcing => simp [hp] at h
  | _ => exact ⟨rfl, rfl, rfl⟩

theorem quiet_of_deleting (setup : Setup σ) {spec : PodSpec} {outcome : Option RunError}
    (h : e.after.phase = .deleting spec outcome) :
    e.handed = [] ∧ e.noticed = [] ∧ e.late setup = [] := by
  unfold handed noticed late
  rw [h]
  cases e.before.phase <;> exact ⟨rfl, rfl, rfl⟩

theorem noticed_of_announcing {spec spec' : PodSpec} {s s' : Streaming} {container : String}
    {fatal : Option RunError} (hp : e.before.phase = .announcing spec s container)
    (hp' : e.after.phase = .streaming spec' s' ∨ e.after.phase = .joining spec' fatal) :
    e.noticed = [container] := by
  obtain hp' | hp' := hp' <;> simp only [noticed, hp, hp']

theorem late_of_streaming {setup : Setup σ} {spec spec' : PodSpec} {s : Streaming} {watch : Watch}
    {outcome : Option Watch.Outcome} {warnings : List Warning}
    (hp : e.before.phase = .streaming spec s)
    (ha : s.watch.answer s.polls (e.seen.fetch setup.platform spec.ref).1 =
      (watch, outcome, warnings))
    (hp' : e.after.phase = .joining spec' none) :
    e.late setup = lateNames s.streamed watch.pending := by
  simp only [late, hp, hp', ha]

theorem late_of_joining_error (setup : Setup σ) {spec : PodSpec} {error : RunError}
    (hp : e.after.phase = .joining spec (some error)) : e.late setup = [] := by
  unfold late
  rw [hp]
  cases e.before.phase <;> rfl

end RunEvent

/-! ## what the watch has seen -/

/-- a wait for containers to be ready that has recorded some of what it was shown, and has recorded
ready what was handed out -/
def Streaming.Sees (s : Streaming) (observed : List Observation) (handed : List String) : Prop :=
  ∃ recorded : List Observation, recorded.Sublist observed ∧ s.watch.Knows .ready recorded ∧
    ∀ name ∈ handed, ∃ o ∈ recorded, o.name = name ∧ o.ready = true

theorem Streaming.sees_begin (pod : PodRef) (limit : Nat) :
    ({ watch := .begin pod .ready limit } : Streaming).Sees [] [] :=
  ⟨[], .slnil, Watch.knows_begin pod .ready limit, by simp⟩

theorem Streaming.Sees.look {s : Streaming} {observed : List Observation} {handed : List String}
    (h : s.Sees observed handed) {answer : Except ClusterError PodSnapshot} {watch : Watch}
    {outcome : Option Watch.Outcome} (hlook : s.watch.Look s.polls answer watch outcome)
    (polls : Nat) :
    ({ s with watch, polls } : Streaming).Sees
      (observed ++ answer.toOption.toList.flatMap (·.observations)) handed := by
  obtain ⟨recorded, hsub, hknows, hall⟩ := h
  refine ⟨recorded ++ s.watch.recordedOf answer,
    hsub.append (s.watch.recordedOf_sublist answer), (hknows.look hlook).1, fun name hname => ?_⟩
  obtain ⟨o, ho, hready⟩ := hall name hname
  exact ⟨o, List.mem_append_left _ ho, hready⟩

/-- a look that hands out a container: one that was handed out before has flapped -/
theorem Streaming.Sees.look_handed {s : Streaming} {observed : List Observation}
    {handed : List String} (h : s.Sees observed handed) {answer : Except ClusterError PodSnapshot}
    {watch : Watch} {o : Observation} (hlook : s.watch.Look s.polls answer watch (some (.ok o)))
    (polls : Nat) :
    ({ s with watch, polls } : Streaming).Sees
        (observed ++ answer.toOption.toList.flatMap (·.observations)) (handed ++ [o.name]) ∧
      (o.name ∈ handed →
        Flaps (observed ++ answer.toOption.toList.flatMap (·.observations)) o.name) := by
  obtain ⟨recorded, hsub, hknows, hall⟩ := h
  obtain ⟨hknows', hout⟩ := hknows.look hlook
  have hsub' := hsub.append (s.watch.recordedOf_sublist answer)
  obtain ⟨before, hlast⟩ := hout.last o rfl
  have hrises := (hout.rises before o [] hlast).1 ⟨rfl, rfl⟩
  constructor
  · refine ⟨_, hsub', hknows', fun name hname => ?_⟩
    rw [List.mem_append, List.mem_singleton] at hname
    obtain hname | rfl := hname
    · obtain ⟨x, hx, hready⟩ := hall name hname
      exact ⟨x, List.mem_append_left _ hx, hready⟩
    · refine ⟨o, ?_, rfl, hrises.1⟩
      rw [hlast]
      exact List.mem_append_right _ (List.mem_append_right _ List.mem_cons_self)
  · intro hname
    obtain ⟨x, hx, hxname, hready⟩ := hall o.name hname
    rw [hlast, ← List.append_assoc] at hsub'
    exact (hrises.flaps (List.mem_append_left before hx) hxname hready).mono hsub'

/-! ## a run that streams logs -/

namespace Run

variable {setup : Setup σ} {past : List (RunEvent σ)} {r r' : Run} {e : RunEvent σ}

theorem streamed?_of_not_early (h : r.isEarly = false) : r.streamed? = none := by
  unfold isEarly at h
  unfold streamed?
  split at h <;> simp_all

/-- how far the handing out of containers is in a phase -/
inductive Handing (setup : Setup σ) (past : List (RunEvent σ)) (r : Run) : Prop where
  | streaming {spec : PodSpec} {s : Streaming} (hp : r.phase = .streaming spec s)
      (hn : past.flatMap (·.handed) = past.flatMap (·.noticed))
      (hl : past.flatMap (·.late setup) = [])
      (hs : s.streamed = (past.flatMap (·.noticed)).reverse)
      (hw : s.Sees (past.flatMap (·.observed setup)) (past.flatMap (·.handed)))
  | announcing {spec : PodSpec} {s : Streaming} {container : String}
      (hp : r.phase = .announcing spec s container)
      (hn : past.flatMap (·.handed) = past.flatMap (·.noticed) ++ [container])
      (hl : past.flatMap (·.late setup) = [])
      (hs : s.streamed = (past.flatMap (·.noticed)).reverse)
      (hw : s.Sees (past.flatMap (·.observed setup)) (past.flatMap (·.handed)))
  | joining {spec : PodSpec} {fatal : Option RunError} (hp : r.phase = .joining spec fatal)
      (hn : past.flatMap (·.handed) = past.flatMap (·.noticed))
  | left (hp : r.isEarly = false)
      (hn : past.flatMap (·.noticed) <+: past.flatMap (·.handed))
      (hall : (∀ e ∈ past, e.Uncancelled) →
        past.flatMap (·.handed) = past.flatMap (·.noticed))

/-- A run that streams logs, or that has: no container was handed out twice unless it flapped, and
what was captured late was never handed out. -/
structure Roster (setup : Setup σ) (past : List (RunEvent σ)) (r : Run) : Prop where
  once : ∀ name, ¬ Flaps (past.flatMap (·.observed setup)) name →
    (past.flatMap (·.handed)).count name ≤ 1
  late : (past.flatMap (·.late setup)).Nodup
  apart : ∀ name ∈ past.flatMap (·.late setup), name ∉ past.flatMap (·.handed)
  handing : Handing setup past r

theorem roster_begin {spec : PodSpec} (hp : r.phase = beginStreaming setup spec) :
    Roster setup [] r where
  once := fun _ _ => Nat.zero_le 1
  late := .nil
  apart := by simp
  handing := .streaming hp rfl rfl rfl (Streaming.sees_begin spec.ref setup.config.pollLimit)

theorem Handing.noticed_prefix (h : Handing setup past r) :
    past.flatMap (·.noticed) <+: past.flatMap (·.handed) := by
  cases h with
  | streaming _ hn => exact hn ▸ List.prefix_refl _
  | announcing _ hn => exact hn ▸ List.prefix_append _ _
  | joining _ hn => exact hn ▸ List.prefix_refl _
  | left _ hn => exact hn

theorem Roster.quiet (h : Roster setup past e.before) (hh : e.handed = [])
    (hl : e.late setup = []) (hn : Handing setup (past ++ [e]) r') :
    Roster setup (past ++ [e]) r' := by
  have hhanded : (past ++ [e]).flatMap (·.handed) = past.flatMap (·.handed) :=
    RunEvent.flatMap_concat_of_nil hh
  have hlate : (past ++ [e]).flatMap (·.late setup) = past.flatMap (·.late setup) :=
    RunEvent.flatMap_concat_of_nil hl
  refine ⟨fun name hflaps => ?_, hlate ▸ h.late, by rw [hlate, hhanded]; exact h.apart, hn⟩
  rw [hhanded]
  refine h.once name fun hbefore => hflaps (hbefore.mono ?_)
  rw [List.flatMap_append]
  exact List.sublist_append_left _ _

theorem Roster.still (h : Roster setup past e.before) (hp : e.after.phase = e.before.phase)
    (hc : e.shown setup = []) : Roster setup (past ++ [e]) e.after := by
  obtain ⟨hh, hn, hl⟩ := RunEvent.quiet_of_phase setup hp
  have ho : e.observed setup = [] := by
    unfold RunEvent.observed
    rw [hc]
    split <;> rfl
  refine h.quiet hh hl ?_
  have hhanded : (past ++ [e]).flatMap (·.handed) = _ := RunEvent.flatMap_concat_of_nil hh
  have hnoticed : (past ++ [e]).flatMap (·.noticed) = _ := RunEvent.flatMap_concat_of_nil hn
  have hlate : (past ++ [e]).flatMap (·.late setup) = _ := RunEvent.flatMap_concat_of_nil hl
  have hobserved : (past ++ [e]).flatMap (·.observed setup) = _ :=
    RunEvent.flatMap_concat_of_nil ho
  cases h.handing with
  | streaming hp' hn hl hs hw =>
    rw [← hnoticed] at hs
    rw [← hhanded, ← hobserved] at hw
    exact .streaming (hp.trans hp') (by rw [hhanded, hnoticed, hn]) (hlate.trans hl) hs hw
  | announcing hp' hn hl hs hw =>
    rw [← hnoticed] at hs
    rw [← hhanded, ← hobserved] at hw
    exact .announcing (hp.trans hp') (by rw [hhanded, hnoticed, hn]) (hlate.trans hl) hs hw
  | joining hp' hn => exact .joining (hp.trans hp') (by rw [hhanded, hnoticed, hn])
  | left hp' hn hall =>
    have hearly : e.after.isEarly = e.before.isEarly := by simp only [isEarly, hp]
    refine .left (hearly.trans hp') (by rw [hhanded, hnoticed]; exact hn) fun hunc => ?_
    rw [hhanded, hnoticed]
    exact hall fun x hx => hunc x (List.mem_append_left _ hx)

theorem Roster.cancelled (h : Roster setup past e.before) (hc : e.seen.cancelled = true)
    {spec : PodSpec} {outcome : Option RunError} (hp : e.after.phase = .deleting spec outcome) :
    Roster setup (past ++ [e]) e.after := by
  obtain ⟨hh, hn, hl⟩ := RunEvent.quiet_of_deleting setup hp
  refine h.quiet hh hl (.left (by simp [isEarly, hp]) ?_ fun hunc => ?_)
  · rw [RunEvent.flatMap_concat_of_nil hh, RunEvent.flatMap_concat_of_nil hn]
    exact h.handing.noticed_prefix
  · have hlast := hunc e (List.mem_append_right past List.mem_cons_self)
    rw [RunEvent.flatMap_concat_of_nil hh, RunEvent.flatMap_concat_of_nil hn]
    cases h.handing with
    | streaming hp' =>
      rw [hlast (by simp [streamed?, hp'])] at hc
      cases hc
    | announcing hp' =>
      rw [hlast (by simp [streamed?, hp'])] at hc
      cases hc
    | joining hp' hn => exact hn
    | left _ _ hall => exact hall fun x hx => hunc x (List.mem_append_left _ hx)

theorem Roster.behind (h : Roster setup past e.before) (hp : e.before.isEarly = false)
    (hp' : e.after.isEarly = false) : Roster setup (past ++ [e]) e.after := by
  obtain ⟨hh, hn, hl⟩ := RunEvent.quiet_of_unstreamed setup (streamed?_of_not_early hp)
  refine h.quiet hh hl (.left hp' ?_ fun hunc => ?_)
  · rw [RunEvent.flatMap_concat_of_nil hh, RunEvent.flatMap_concat_of_nil hn]
    exact h.handing.noticed_prefix
  · rw [RunEvent.flatMap_concat_of_nil hh, RunEvent.flatMap_concat_of_nil hn]
    cases h.handing with
    | streaming hp'' => simp [isEarly, hp''] at hp
    | announcing hp'' => simp [isEarly, hp''] at hp
    | joining hp'' => simp [isEarly, hp''] at hp
    | left _ _ hall => exact hall fun x hx => hunc x (List.mem_append_left _ hx)

theorem Handing.of_streaming (h : Handing setup past r) {spec : PodSpec} {s : Streaming}
    (hp : r.phase = .streaming spec s) :
    past.flatMap (·.handed) = past.flatMap (·.noticed) ∧ past.flatMap (·.late setup) = [] ∧
      s.streamed = (past.flatMap (·.noticed)).reverse ∧
      s.Sees (past.flatMap (·.observed setup)) (past.flatMap (·.handed)) := by
  cases h with
  | streaming hp' hn hl hs hw =>
    rw [hp] at hp'
    cases hp'
    exact ⟨hn, hl, hs, hw⟩
  | announcing hp' =>
    rw [hp] at hp'
    cases hp'
  | joining hp' =>
    rw [hp] at hp'
    cases hp'
  | left hp' => simp [isEarly, hp] at hp'

theorem Handing.of_announcing (h : Handing setup past r) {spec : PodSpec} {s : Streaming}
    {container : String} (hp : r.phase = .announcing spec s container) :
    past.flatMap (·.handed) = past.flatMap (·.noticed) ++ [container] ∧
      past.flatMap (·.late setup) = [] ∧ s.streamed = (past.flatMap (·.noticed)).reverse ∧
      s.Sees (past.flatMap (·.observed setup)) (past.flatMap (·.handed)) := by
  cases h with
  | streaming hp' =>
    rw [hp] at hp'
    cases hp'
  | announcing hp' hn hl hs hw =>
    rw [hp] at hp'
    cases hp'
    exact ⟨hn, hl, hs, hw⟩
  | joining hp' =>
    rw [hp] at hp'
    cases hp'
  | left hp' => simp [isEarly, hp] at hp'

theorem Handing.of_joining (h : Handing setup past r) {spec : PodSpec} {fatal : Option RunError}
    (hp : r.phase = .joining spec fatal) :
    past.flatMap (·.handed) = past.flatMap (·.noticed) := by
  cases h with
  | streaming hp' =>
    rw [hp] at hp'
    cases hp'
  | announcing hp' =>
    rw [hp] at hp'
    cases hp'
  | joining _ hn => exact hn
  | left hp' => simp [isEarly, hp] at hp'

theorem Handing.isEarly_eq (h : Handing setup past r) : r.isEarly = r.streamed?.isSome := by
  cases h with
  | streaming hp => simp [isEarly, streamed?, hp]
  | announcing hp => simp [isEarly, streamed?, hp]
  | joining hp => simp [isEarly, streamed?, hp]
  | left hp =>
    rw [hp, streamed?_of_not_early hp]
    rfl

theorem Roster.again (h : Roster setup past e.before) {spec : PodSpec} {s : Streaming}
    (hp : e.before.phase = .streaming spec s) {watch : Watch} {polls : Nat}
    (hlook : s.watch.Look s.polls (e.seen.fetch setup.platform spec.ref).1 watch none)
    (hc : e.left.calls = (e.seen.fetch setup.platform spec.ref).2.calls)
    (hp' : e.after.phase = .streaming spec { s with watch, polls }) :
    Roster setup (past ++ [e]) e.after := by
  obtain ⟨hn, hl, hs, hw⟩ := h.handing.of_streaming hp
  have hh : e.handed = [] := by simp only [RunEvent.handed, hp, hp']
  have hnoticed : e.noticed = [] := by simp only [RunEvent.noticed, hp]
  have hlate : e.late setup = [] := by simp only [RunEvent.late, hp, hp']
  have ho : e.observed setup =
      (e.seen.fetch setup.platform spec.ref).1.toOption.toList.flatMap (·.observations) := by
    simp only [RunEvent.observed, hp, RunEvent.shown_of_fetch hc]
  refine h.quiet hh hlate (.streaming hp' ?_ ?_ ?_ ?_)
  · rw [RunEvent.flatMap_concat_of_nil hh, RunEvent.flatMap_concat_of_nil hnoticed, hn]
  · rw [RunEvent.flatMap_concat_of_nil hlate, hl]
  · rw [RunEvent.flatMap_concat_of_nil hnoticed]
    exact hs
  · rw [RunEvent.flatMap_concat_of_nil hh, RunEvent.flatMap_concat, ho]
    exact hw.look hlook polls

/-- a look that hands out a container -/
theorem Roster.hand (h : Roster setup past e.before) {spec : PodSpec} {s : Streaming}
    (hp : e.before.phase = .streaming spec s) {watch : Watch} {o : Observation}
    (hlook : s.watch.Look s.polls (e.seen.fetch setup.platform spec.ref).1 watch (some (.ok o)))
    (hc : e.left.calls = (e.seen.fetch setup.platform spec.ref).2.calls)
    (hp' : e.after.phase = .announcing spec { s with watch } o.name) :
    Roster setup (past ++ [e]) e.after := by
  obtain ⟨hn, hl, hs, hw⟩ := h.handing.of_streaming hp
  have hh : (past ++ [e]).flatMap (·.handed) = past.flatMap (·.handed) ++ [o.name] := by
    rw [RunEvent.flatMap_concat]
    simp only [RunEvent.handed, hp, hp']
  have hnoticed : (past ++ [e]).flatMap (·.noticed) = past.flatMap (·.noticed) :=
    RunEvent.flatMap_concat_of_nil (by simp only [RunEvent.noticed, hp])
  have hlate : (past ++ [e]).flatMap (·.late setup) = [] :=
    (RunEvent.flatMap_concat_of_nil (by simp only [RunEvent.late, hp, hp'])).trans hl
  have ho : (past ++ [e]).flatMap (·.observed setup) = past.flatMap (·.observed setup) ++
      (e.seen.fetch setup.platform spec.ref).1.toOption.toList.flatMap (·.observations) := by
    rw [RunEvent.flatMap_concat]
    simp only [RunEvent.observed, hp, RunEvent.shown_of_fetch hc]
  obtain ⟨hw', hflaps⟩ := hw.look_handed hlook s.polls
  refine ⟨fun name hno => ?_, by rw [hlate]; exact .nil, by simp [hlate], ?_⟩
  · rw [ho] at hno
    rw [hh, List.count_append]
    have honce := h.once name fun hbefore => hno (hbefore.mono (List.sublist_append_left _ _))
    by_cases hname : o.name = name
    · subst hname
      have hfresh : (past.flatMap (·.handed)).count o.name = 0 :=
        List.count_eq_zero.2 fun hmem => hno (hflaps hmem)
      have hone : [o.name].count o.name = 1 := List.count_singleton_self
      omega
    · rw [List.count_singleton, if_neg (by simpa using hname)]
      exact honce
  · refine .announcing hp' (by rw [hh, hnoticed, hn]) hlate (by rw [hnoticed]; exact hs) ?_
    rw [hh, ho]
    exact hw'

/-- a look after which no more containers are waited for -/
theorem Roster.close (h : Roster setup past e.before) {spec : PodSpec} {s : Streaming}
    (hp : e.before.phase = .streaming spec s) {fatal : Option RunError}
    (hp' : e.after.phase = .joining spec fatal) : Roster setup (past ++ [e]) e.after := by
  obtain ⟨hn, hl, hs, hw⟩ := h.handing.of_streaming hp
  have hh : (past ++ [e]).flatMap (·.handed) = past.flatMap (·.handed) :=
    RunEvent.flatMap_concat_of_nil (by simp only [RunEvent.handed, hp, hp'])
  have hnoticed : (past ++ [e]).flatMap (·.noticed) = past.flatMap (·.noticed) :=
    RunEvent.flatMap_concat_of_nil (by simp only [RunEvent.noticed, hp])
  have hlate : (past ++ [e]).flatMap (·.late setup) = e.late setup := by
    rw [RunEvent.flatMap_concat, hl, List.nil_append]
  have hnew : (e.late setup).Nodup ∧ ∀ name ∈ e.late setup, name ∉ s.streamed := by
    cases fatal with
    | none =>
      simp only [RunEvent.late, hp, hp']
      exact ⟨nodup_lateNames _ _, fun name hname => (mem_lateNames.1 hname).1⟩
    | some e =>
      simp only [RunEvent.late, hp, hp']
      exact ⟨.nil, by simp⟩
  refine ⟨fun name hno => ?_, by rw [hlate]; exact hnew.1, fun name hname hmem => ?_,
    .joining hp' (by rw [hh, hnoticed, hn])⟩
  · rw [hh]
    refine h.once name fun hbefore => hno (hbefore.mono ?_)
    rw [List.flatMap_append]
    exact List.sublist_append_left _ _
  · rw [hlate] at hname
    rw [hh, hn] at hmem
    refine hnew.2 name hname ?_
    rw [hs]
    exact List.mem_reverse.2 hmem

theorem Roster.announce (h : Roster setup past e.before) {spec : PodSpec} {s : Streaming}
    {container : String} (hp : e.before.phase = .announcing spec s container)
    (hp' : e.after.phase =
        .streaming spec { s with polls := 0, streamed := container :: s.streamed } ∨
      e.after.phase = .joining spec none) : Roster setup (past ++ [e]) e.after := by
  obtain ⟨hn, hl, hs, hw⟩ := h.handing.of_announcing hp
  have hh : e.handed = [] := by simp only [RunEvent.handed, hp]
  have hlate : e.late setup = [] := by simp only [RunEvent.late, hp]
  have hhanded : (past ++ [e]).flatMap (·.handed) = past.flatMap (·.handed) :=
    RunEvent.flatMap_concat_of_nil hh
  have hnoticed : (past ++ [e]).flatMap (·.noticed) = past.flatMap (·.noticed) ++ [container] := by
    rw [RunEvent.flatMap_concat, RunEvent.noticed_of_announcing hp hp']
  have ho : (past ++ [e]).flatMap (·.observed setup) = past.flatMap (·.observed setup) :=
    RunEvent.flatMap_concat_of_nil (by simp only [RunEvent.observed, hp])
  refine h.quiet hh hlate ?_
  have hall := hhanded.trans (hn.trans hnoticed.symm)
  obtain hp' | hp' := hp'
  · refine .streaming hp' hall ((RunEvent.flatMap_concat_of_nil hlate).trans hl) ?_ ?_
    · rw [hnoticed, List.reverse_append, ← hs]
      rfl
    · rw [hhanded, ho]
      exact hw
  · exact .joining hp' hall

/-- the log tasks are all joined -/
theorem Roster.leave (h : Roster setup past e.before) {spec : PodSpec} {fatal : Option RunError}
    (hp : e.before.phase = .joining spec fatal) (hp' : e.after.isEarly = false) :
    Roster setup (past ++ [e]) e.after := by
  have hn := h.handing.of_joining hp
  have hh : e.handed = [] := by simp only [RunEvent.handed, hp]
  have hnoticed : e.noticed = [] := by simp only [RunEvent.noticed, hp]
  have hall : (past ++ [e]).flatMap (·.handed) = (past ++ [e]).flatMap (·.noticed) := by
    rw [RunEvent.flatMap_concat_of_nil hh, RunEvent.flatMap_concat_of_nil hnoticed, hn]
  exact h.quiet hh (by simp only [RunEvent.late, hp])
    (.left hp' (hall ▸ List.prefix_refl _) fun _ => hall)

/-! ## every step -/

theorem afterJoining_kept (setup : Setup σ) (r : Run) (spec : PodSpec) (fatal : Option RunError)
    (now : Nat) :
    (r.afterJoining setup spec fatal now).isEarly = false ∧
      (r.afterJoining setup spec fatal now).step = r.step ∧
      (r.afterJoining setup spec fatal now).tasks = r.tasks ∧
      (r.afterJoining setup spec fatal now).started = r.started := by
  unfold afterJoining
  dsimp only
  split <;> exact ⟨rfl, rfl, rfl, rfl⟩

theorem closeFinishing_kept (setup : Setup σ) (r : Run) (spec : PodSpec) (report : FinishedPod)
    (now : Nat) :
    (r.closeFinishing setup spec report now).isEarly = false ∧
      (r.closeFinishing setup spec report now).step = r.step ∧
      (r.closeFinishing setup spec report now).tasks = r.tasks ∧
      (r.closeFinishing setup spec report now).started = r.started := by
  unfold closeFinishing
  dsimp only
  split <;> exact ⟨rfl, rfl, rfl, rfl⟩

theorem afterFinishing_kept (setup : Setup σ) (r : Run) (spec : PodSpec) (f : Finishing)
    (now : Nat) (outcome : Watch.Outcome) :
    (r.afterFinishing setup spec f now outcome).isEarly = false ∧
      (r.afterFinishing setup spec f now outcome).step = r.step ∧
      (r.afterFinishing setup spec f now outcome).tasks = r.tasks ∧
      (r.afterFinishing setup spec f now outcome).started = r.started := by
  unfold afterFinishing
  split
  next =>
    dsimp only
    split
    · exact ⟨rfl, rfl, rfl, rfl⟩
    · exact closeFinishing_kept setup r spec _ now
  next => exact closeFinishing_kept setup r spec _ now
  next => exact closeFinishing_kept setup r spec _ now
  next => split <;> exact ⟨rfl, rfl, rfl, rfl⟩

theorem exists_joining_afterStreaming (r : Run) (spec : PodSpec) (s : Streaming) (now : Nat)
    (error : RunError) :
    ∃ fatal, (r.afterStreaming spec s now (.error error)).phase = .joining spec fatal := by
  unfold afterStreaming
  split
  next h => cases h
  next => exact ⟨none, rfl⟩
  next => exact ⟨none, rfl⟩
  next e _ _ _ => exact ⟨some e, rfl⟩

theorem phase_afterNotice (r : Run) (spec : PodSpec) (s : Streaming) (container : String)
    (now : Nat) :
    (r.afterNotice spec s container now).phase =
        .streaming spec { s with polls := 0, streamed := container :: s.streamed } ∨
      (r.afterNotice spec s container now).phase = .joining spec none := by
  unfold afterNotice
  dsimp only
  split
  · exact .inl rfl
  · exact .inr rfl

theorem Roster.transition (h : Roster setup past e.before)
    (ht : Transition setup e.before e.seen e.after e.left) :
    Roster setup (past ++ [e]) e.after := by
  obtain ⟨task, r, w, r', w'⟩ := e
  have hearly : r.isEarly = r.streamed?.isSome := h.handing.isEarly_eq
  have ht : Transition setup r w r' w' := ht
  cases ht with
  -- these steps are made before logs are streamed only
  | cancelledEarly hp | buildPanicked hp | buildRefused hp | built hp | createRefused hp
  | created hp => simp [isEarly, streamed?, hp] at hearly
  | asked => exact h.still rfl (RunEvent.shown_of_no_call rfl)
  | cancelled _ hc => exact h.cancelled hc rfl
  | @streamingLook spec s watch outcome _ hp _ _ ha =>
    have hlook := Watch.look_of_answer ha
    cases outcome with
    | ok o => exact h.hand hp hlook rfl rfl
    | error error =>
      obtain ⟨fatal, hphase⟩ :=
        exists_joining_afterStreaming r spec { s with watch } w.now error
      exact h.close hp hphase
  | streamingAgain hp _ _ ha => exact h.again hp (Watch.look_of_answer ha) rfl rfl
  | @announced spec s container hp =>
    exact h.announce hp (phase_afterNotice r spec s container w.now)
  | joinedPanicked | joined => exact h.still rfl (RunEvent.shown_of_no_call rfl)
  | @joinedAll spec fatal hp => exact h.leave hp (afterJoining_kept setup r spec fatal w.now).1
  | @finishingLook spec f watch outcome _ hp =>
    exact h.behind (by simp [isEarly, hp])
      (afterFinishing_kept setup r spec { f with watch } w.now outcome).1
  | finishingAgain hp | deleteRefused hp | deleted hp =>
    exact h.behind (by simp [isEarly, hp]) rfl

/-- **What each step keeps.** -/
theorem Roster.event (h : Roster setup past e.before) (hv : e.Valid setup) :
    Roster setup (past ++ [e]) e.after := by
  unfold RunEvent.Valid at hv
  split at hv
  · exact h.transition (transition_of_act hv)
  · obtain ⟨t, result, -, ht, hleft, hafter⟩ := transition_of_actTask hv
    refine h.still (by rw [hafter]) ?_
    obtain hcalls | hcalls := ht.calls.2
    · exact RunEvent.shown_of_no_call (by rw [hleft]; exact hcalls)
    · exact RunEvent.shown_of_opened (by rw [hleft]; exact hcalls)

end Run

end StepRunner
