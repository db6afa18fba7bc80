import StepRunner.Proofs.Run.Lifecycle
import StepRunner.Proofs.Wait.Watch

/-!
# The end of a pod

What the wait for the end of a pod has seen when it reports, against the snapshots that it was
shown.  It answers for the containers that the last snapshot lists.  Of one that was listed before
and is not there any more it says nothing.

* `Finishing.Follows`           the wait under way, and the snapshots it was shown
* `FinishedPod.Fits`            its report
* `Run.Waits`                   a run in this wait, or behind it
* `Listed`, `ShownTerminated`   what a list of snapshots says of a container
* `finished_of_play`            what a report answers for
-/

namespace StepRunner

/-! ## reports -/

theorem mem_noteContainer {o x : Observation} {l : List Observation} (h : x ∈ noteContainer o l) :
    x = o ∨ x ∈ l := by
  induction l with
  | nil => exact .inl (List.mem_singleton.1 h)
  | cons old rest ih =>
    unfold noteContainer at h
    split at h
    · obtain rfl | hx := List.mem_cons.1 h
      · exact .inl rfl
      · exact .inr (List.mem_cons_of_mem _ hx)
    · obtain rfl | hx := List.mem_cons.1 h
      · exact .inr List.mem_cons_self
      · exact (ih hx).imp_right (List.mem_cons_of_mem _)

theorem mem_noteContainer_self (o : Observation) (l : List Observation) :
    o ∈ noteContainer o l := by
  induction l with
  | nil => exact List.mem_cons_self
  | cons old rest ih =>
    unfold noteContainer
    split
    · exact List.mem_cons_self
    · exact List.mem_cons_of_mem _ ih

theorem name_noteContainer (o : Observation) {l : List Observation} {name : String}
    (h : ∃ x ∈ l, x.name = name) : ∃ x ∈ noteContainer o l, x.name = name := by
  obtain ⟨x, hx, hname⟩ := h
  induction l with
  | nil => cases hx
  | cons old rest ih =>
    unfold noteContainer
    split
    next hsame =>
      obtain rfl | hx := List.mem_cons.1 hx
      · exact ⟨o, List.mem_cons_self, hsame.symm.trans hname⟩
      · exact ⟨x, List.mem_cons_of_mem _ hx, hname⟩
    next =>
      obtain rfl | hx := List.mem_cons.1 hx
      · exact ⟨x, List.mem_cons_self, hname⟩
      · obtain ⟨y, hy, hyname⟩ := ih hx
        exact ⟨y, List.mem_cons_of_mem _ hy, hyname⟩

/-- a wait for the end of a pod, and the snapshots that it was shown -/
structure Finishing.Follows (f : Finishing) (shown : List PodSnapshot) : Prop where
  goal : f.watch.goal = .done
  watch : f.watch.Follows shown
  handedOut : f.watch.HandedOut f.containers
  containers : ∀ o ∈ f.containers, o.state = .terminated ∧ ∃ s ∈ shown, o ∈ s.observations

/-- A report of such a wait: its containers were shown terminated, and they are all of the last
snapshot unless the pod had come to its end. -/
structure FinishedPod.Fits (report : FinishedPod) (shown : List PodSnapshot) : Prop where
  containers : ∀ o ∈ report.containers, o.state = .terminated ∧ ∃ s ∈ shown, o ∈ s.observations
  last : ∃ earlier last, shown = earlier ++ [last] ∧ report.phase = last.phase ∧
    (last.phase.isTerminal = true ∨ report.unfinished = []) ∧
    (report.unfinished = [] → ∀ name ∈ last.names, ∃ o ∈ report.containers, o.name = name)

namespace Finishing

variable {f : Finishing} {shown : List PodSnapshot}

theorem follows_begin (pod : PodRef) (limit : Nat) :
    Follows { watch := .begin pod .done limit } [] :=
  ⟨rfl, Watch.follows_begin pod .done limit, Watch.handedOut_begin pod .done limit, by simp⟩

theorem Follows.fits_of_remaining (h : f.Follows shown) (hr : f.watch.remaining = false) :
    FinishedPod.Fits ⟨f.watch.phase, f.containers, []⟩ shown := by
  obtain ⟨hseen, hmet⟩ := Watch.met_of_remaining hr
  obtain ⟨earlier, last, hshown, htracked, hphase⟩ := h.watch.exists_last (h.watch.seen hseen)
  refine ⟨h.containers, earlier, last, hshown, hphase, .inr rfl, fun _ name hname => ?_⟩
  rw [← htracked] at hname
  obtain ⟨o, ho, hm⟩ := hmet name hname
  exact h.handedOut name o ho hm

theorem Follows.fits_of_terminal (h : f.Follows shown) (hne : shown ≠ [])
    (hall : ∀ name ∈ f.watch.tracked, (f.watch.known.get? name).isSome)
    (hp : f.watch.phase.isTerminal = true) :
    FinishedPod.Fits ⟨f.watch.phase, f.containers, f.watch.pending⟩ shown := by
  obtain ⟨earlier, last, hshown, htracked, hphase⟩ := h.watch.exists_last hne
  rw [hphase] at hp
  refine ⟨h.containers, earlier, last, hshown, hphase, .inl hp, fun hnil name hname => ?_⟩
  rw [← htracked] at hname
  obtain ⟨o, ho, hm⟩ := Watch.met_of_pending hall hnil name hname
  exact h.handedOut name o ho hm

theorem Follows.containers_append (h : f.Follows shown) (more : List PodSnapshot) :
    ∀ o ∈ f.containers, o.state = .terminated ∧ ∃ s ∈ shown ++ more, o ∈ s.observations := by
  intro o ho
  obtain ⟨hstate, s, hs, hmem⟩ := h.containers o ho
  exact ⟨hstate, s, List.mem_append_left _ hs, hmem⟩

theorem Follows.absorb_none (h : f.Follows shown) {s : PodSnapshot}
    (hs : (f.watch.absorb s).2 = none) (polls : Nat) :
    Follows { f with watch := (f.watch.absorb s).1, polls } (shown ++ [s]) :=
  ⟨h.goal, h.watch.absorb s, h.handedOut.absorb_none hs, h.containers_append [s]⟩

theorem Follows.absorb_some (h : f.Follows shown) {s : PodSnapshot} {o : Observation}
    (hs : (f.watch.absorb s).2 = some o) (polls : Nat) :
    Follows ⟨(f.watch.absorb s).1, polls, noteContainer o f.containers⟩ (shown ++ [s]) := by
  have hscan := Watch.absorb_scan f.watch s
  rw [hs] at hscan
  obtain ⟨hmem, hmet⟩ := Watch.scan_found hscan
  rw [h.goal] at hmet
  refine ⟨h.goal, h.watch.absorb s, h.handedOut.absorb_some hs ?_ ?_, fun x hx => ?_⟩
  · exact ⟨o, mem_noteContainer_self o f.containers, rfl⟩
  · exact fun name hname => name_noteContainer o hname
  · obtain rfl | hx := mem_noteContainer hx
    · exact ⟨by simpa [Goal.met] using hmet, s, by simp, hmem⟩
    · exact h.containers_append [s] x hx

end Finishing

/-! ## a run that waits -/

namespace Run

variable {σ : Type} {setup : Setup σ} {spec : PodSpec} {shown : List PodSnapshot} {r r' : Run}
  {w w' : World σ}

/-- the outcome that a run goes to its end with -/
def outcome? (r : Run) : Option (Option RunError) :=
  match r.phase with
  | .deleting _ outcome | .ended outcome => some outcome
  | _ => none

/-- A run in the wait for the end of its pod, or behind it, and the snapshots that it was shown in
this wait. -/
inductive Waits (setup : Setup σ) (spec : PodSpec) (shown : List PodSnapshot) (r : Run) : Prop where
  | waiting {f : Finishing} (hp : r.phase = .finishing spec f) (hn : r.report = none)
      (hf : f.Follows shown)
  | failed {e : RunError} (ho : r.outcome? = some (some e)) (hn : r.report = none)
  | reported {report : FinishedPod} {outcome : Option RunError} (ho : r.outcome? = some outcome)
      (hr : r.report = some report) (hf : report.Fits shown)
      (hv : r.extent = .whole →
        outcome = report.verdict? setup.config.checkExitCodes spec.ref.text)

theorem waits_closeFinishing {report : FinishedPod} (h : report.Fits shown) (now : Nat) :
    (r.closeFinishing setup spec report now).Waits setup spec shown := by
  unfold closeFinishing
  dsimp only
  split
  next => exact .reported rfl rfl h fun _ => rfl
  next hext => exact .reported rfl rfl h fun hw => (hext hw).elim

theorem waits_afterFinishing {f : Finishing} (hf : f.Follows shown) (hn : r.report = none)
    {answer : Except ClusterError PodSnapshot} {watch : Watch} {outcome : Watch.Outcome}
    (hlook : f.watch.Look f.polls answer watch (some outcome)) (now : Nat) :
    (r.afterFinishing setup spec { f with watch } now outcome).Waits setup spec
      (shown ++ answer.toOption.toList) := by
  cases hlook with
  | refused e =>
    unfold afterFinishing
    dsimp only
    split
    next => exact .failed rfl hn
    next => exact .failed rfl hn
  | @handed s o hs =>
    have hnext := hf.absorb_some hs 0
    unfold afterFinishing
    dsimp only
    split
    next => exact .waiting rfl hn hnext
    next hr =>
      rw [Bool.not_eq_true] at hr
      exact waits_closeFinishing (hnext.fits_of_remaining hr) now
  | @nothingLeft s hs hr =>
    exact waits_closeFinishing ((hf.absorb_none hs f.polls).fits_of_remaining hr) now
  | @podFinished s hs hp =>
    have hall := Watch.known_of_absorb hs
    exact waits_closeFinishing ((hf.absorb_none hs f.polls).fits_of_terminal (by simp) hall hp) now
  | limitReached =>
    unfold afterFinishing
    dsimp only
    split
    next => exact .failed rfl hn
    next => exact .failed rfl hn

theorem waits_again {f : Finishing} (hf : f.Follows shown) (hn : r.report = none)
    {answer : Except ClusterError PodSnapshot} {watch : Watch}
    (hlook : f.watch.Look f.polls answer watch none) (now pause : Nat) :
    (r.goToAfter (.finishing spec { f with watch, polls := f.polls + 1 }) now pause).Waits setup
      spec (shown ++ answer.toOption.toList) := by
  cases hlook with
  | again hs => exact .waiting rfl hn (hf.absorb_none hs (f.polls + 1))

/-- whether the wait for the end of the pod is still to come -/
def isEarly (r : Run) : Bool :=
  match r.phase with
  | .start | .creating _ | .streaming .. | .announcing .. | .joining .. => true
  | _ => false

theorem exists_finishing_of_inHand? (h : r.inHand? = some spec) (hlate : r.isEarly = false) :
    ∃ f, r.phase = .finishing spec f := by
  unfold inHand? at h
  unfold isEarly at hlate
  split at h <;> simp_all

theorem Waits.not_early (h : r.Waits setup spec shown) : r.isEarly = false := by
  have hlate {outcome : Option RunError} (ho : r.outcome? = some outcome) : r.isEarly = false := by
    unfold outcome? at ho
    unfold isEarly
    split at ho <;> simp_all
  cases h with
  | waiting hp => simp [isEarly, hp]
  | failed ho => exact hlate ho
  | reported ho => exact hlate ho

theorem Waits.congr (h : r.Waits setup spec shown) (hp : r'.phase = r.phase)
    (hr : r'.report = r.report) (hext : r'.extent = r.extent) : r'.Waits setup spec shown := by
  have hout : r'.outcome? = r.outcome? := by simp only [outcome?, hp]
  cases h with
  | waiting hp' hn hf => exact .waiting (hp.trans hp') (hr.trans hn) hf
  | failed ho hn => exact .failed (hout.trans ho) (hr.trans hn)
  | reported ho hr' hf hv =>
    exact .reported (hout.trans ho) (hr.trans hr') hf fun hw => hv (hext.symm.trans hw)

theorem Waits.ended (h : r.Waits setup spec shown) {pod : PodSpec} {outcome : Option RunError}
    (hp : r.phase = .deleting pod outcome) (now : Nat) :
    (r.goTo (.ended outcome) now).Waits setup spec shown := by
  have hout : r.outcome? = some outcome := by simp only [outcome?, hp]
  cases h with
  | waiting hp' =>
    rw [hp] at hp'
    cases hp'
  | failed ho hn => exact .failed (hout.symm.trans ho) hn
  | reported ho hr hf hv => exact .reported (hout.symm.trans ho) hr hf hv

theorem Waits.follows (h : r.Waits setup spec shown) {pod : PodSpec} {f : Finishing}
    (hp : r.phase = .finishing pod f) : pod = spec ∧ r.report = none ∧ f.Follows shown := by
  have hout : r.outcome? = none := by simp only [outcome?, hp]
  cases h with
  | waiting hp' hn hf =>
    rw [hp] at hp'
    cases hp'
    exact ⟨rfl, hn, hf⟩
  | failed ho =>
    rw [hout] at ho
    cases ho
  | reported ho =>
    rw [hout] at ho
    cases ho

theorem Waits.fits (h : r.Waits setup spec shown) {report : FinishedPod}
    (hr : r.report = some report) : report.Fits shown := by
  cases h with
  | waiting _ hn =>
    rw [hr] at hn
    cases hn
  | failed _ hn =>
    rw [hr] at hn
    cases hn
  | reported _ hr' hf =>
    rw [hr] at hr'
    cases hr'
    exact hf

theorem Waits.event {e : RunEvent σ} (h : e.before.Waits setup spec shown) (hv : e.Valid setup) :
    e.after.Waits setup spec (shown ++ e.shown setup) := by
  have hlate := h.not_early
  obtain ⟨task, r, w, r', w'⟩ := e
  cases task with
  | some id =>
    have hact : r.actTask setup id w = some (r', w') := hv
    obtain ⟨t, result, -, ht, rfl, rfl⟩ := transition_of_actTask hact
    have hshown (r' : Run) : RunEvent.shown setup ⟨some id, r, w, r', result.world⟩ = [] := by
      obtain hcalls | hcalls := ht.calls.2
      · exact RunEvent.shown_of_no_call hcalls
      · exact RunEvent.shown_of_opened hcalls
    rw [hshown, List.append_nil]
    exact h.congr rfl rfl rfl
  | none =>
    have ht : Transition setup r w r' w' := transition_of_act hv
    cases ht with
    -- these steps are made before the wait only
    | cancelledEarly hp | buildPanicked hp | buildRefused hp | built hp | createRefused hp
    | created hp | streamingLook hp | streamingAgain hp | announced hp | joinedPanicked hp
    | joined hp | joinedAll hp => simp [isEarly, hp] at hlate
    | asked =>
      rw [RunEvent.shown_of_no_call rfl, List.append_nil]
      exact h.congr rfl rfl rfl
    | cancelled hp =>
      obtain ⟨f, hphase⟩ := exists_finishing_of_inHand? hp hlate
      rw [RunEvent.shown_of_no_call rfl, List.append_nil]
      exact .failed rfl (h.follows hphase).2.1
    | finishingLook hp _ _ ha =>
      obtain ⟨rfl, hn, hf⟩ := h.follows hp
      rw [RunEvent.shown_of_fetch rfl]
      exact waits_afterFinishing hf hn (Watch.look_of_answer ha) _
    | finishingAgain hp _ _ ha =>
      obtain ⟨rfl, hn, hf⟩ := h.follows hp
      rw [RunEvent.shown_of_fetch rfl]
      exact waits_again hf hn (Watch.look_of_answer ha) _ _
    | deleteRefused hp | deleted hp =>
      rw [RunEvent.shown_of_deleted rfl, List.append_nil]
      exact h.ended hp _

end Run

/-! ## what a report says -/

/-- whether one of some snapshots lists a container -/
def Listed (shown : List PodSnapshot) (name : String) : Prop := ∃ s ∈ shown, name ∈ s.names

/-- whether one of some snapshots shows a container terminated -/
def ShownTerminated (shown : List PodSnapshot) (name : String) : Prop :=
  ∃ s ∈ shown, ∃ o ∈ s.observations, o.name = name ∧ o.state = .terminated

namespace FinishedPod

variable {report : FinishedPod} {shown : List PodSnapshot}

theorem Fits.names_of_last (h : report.Fits shown) :
    ∃ earlier last, shown = earlier ++ [last] ∧ report.phase = last.phase ∧
      (last.phase.isTerminal = true ∨
        ∀ name ∈ last.names, ∃ o ∈ report.containers, o.name = name) := by
  obtain ⟨earlier, last, hshown, hphase, hend, hnames⟩ := h.last
  exact ⟨earlier, last, hshown, hphase, hend.imp_right hnames⟩

theorem Fits.shownTerminated (h : report.Fits shown) {name : String}
    (ho : ∃ o ∈ report.containers, o.name = name) : ShownTerminated shown name := by
  obtain ⟨o, ho, hname⟩ := ho
  obtain ⟨hstate, s, hs, hmem⟩ := h.containers o ho
  exact ⟨s, hs, o, hmem, hname, hstate⟩

end FinishedPod

theorem Listed.append_iff {earlier : List PodSnapshot} {last : PodSnapshot} {name : String} :
    Listed (earlier ++ [last]) name ↔ Listed earlier name ∨ name ∈ last.names := by
  simp [Listed, or_and_right, exists_or]

theorem ShownTerminated.append_iff {earlier : List PodSnapshot} {last : PodSnapshot} {name : String}
    (h : name ∉ last.names) :
    ShownTerminated (earlier ++ [last]) name ↔ ShownTerminated earlier name := by
  constructor
  · rintro ⟨s, hs, o, ho, hname, hstate⟩
    rw [List.mem_append, List.mem_singleton] at hs
    obtain hs | rfl := hs
    · exact ⟨s, hs, o, ho, hname, hstate⟩
    · exact absurd (PodSnapshot.mem_names.2 ⟨o, ho, hname⟩) h
  · rintro ⟨s, hs, hshows⟩
    exact ⟨s, List.mem_append_left _ hs, hshows⟩

/-- When the last snapshot was not of a pod that had come to its end, what is missing from a report
is what was listed before it and is not there any more. -/
theorem FinishedPod.Fits.complete_iff {report : FinishedPod} {earlier : List PodSnapshot}
    {last : PodSnapshot} (h : report.Fits (earlier ++ [last]))
    (hnames : last.phase.isTerminal = true ∨
      ∀ name ∈ last.names, ∃ o ∈ report.containers, o.name = name) :
    (last.phase.isTerminal = true ∨
      ∀ name, Listed (earlier ++ [last]) name → ShownTerminated (earlier ++ [last]) name) ↔
    (last.phase.isTerminal = true ∨
      ∀ name, Listed earlier name → name ∉ last.names → ShownTerminated earlier name) := by
  constructor
  · rintro (hend | hall)
    · exact .inl hend
    · refine .inr fun name hlisted hgone => ?_
      exact (ShownTerminated.append_iff hgone).1 (hall name (Listed.append_iff.2 (.inl hlisted)))
  · rintro (hend | hgone)
    · exact .inl hend
    · refine hnames.imp_right fun hlast name hlisted => ?_
      by_cases hmem : name ∈ last.names
      · exact h.shownTerminated (hlast name hmem)
      · have hearlier := (Listed.append_iff.1 hlisted).resolve_right hmem
        exact (ShownTerminated.append_iff hmem).2 (hgone name hearlier hmem)

namespace Crew

variable {σ : Type} {setup : Setup σ} {c : Crew σ} {i : Nat} {r : Run} {spec : PodSpec}

theorem waits_of_play (hr : c.runs[i]? = some r) (hp : r.phase = Run.beginFinishing setup spec)
    (hn : r.report = none) (moves : List Move) :
    ∃ r', (c.play setup moves).runs[i]? = some r' ∧
      r'.Waits setup spec ((c.events setup i moves).flatMap (RunEvent.shown setup)) := by
  have hbegin : r.Waits setup spec ([].flatMap (RunEvent.shown setup)) :=
    .waiting hp hn (Finishing.follows_begin spec.ref setup.config.pollLimit)
  refine play_induction
    (Q := fun past r => r.Waits setup spec (past.flatMap (RunEvent.shown setup)))
    (fun past e hwaits hvalid => ?_) moves hr hbegin
  rw [List.flatMap_append, List.flatMap_singleton]
  exact hwaits.event hvalid

/-- **What the wait for the end of a pod answers for when it reports**, whatever it was shown: the
pod had come to its end, or every container of the last snapshot was seen terminated.  It follows
that all containers it was ever shown were terminated just when those were that the last snapshot
does not list any more. -/
theorem finished_of_play (hr : c.runs[i]? = some r) (hp : r.phase = Run.beginFinishing setup spec)
    (hn : r.report = none) (moves : List Move) {report : FinishedPod}
    (hreport : (c.play setup moves).runs[i]?.bind (·.report) = some report) :
    ∃ earlier last, (c.events setup i moves).flatMap (RunEvent.shown setup) = earlier ++ [last] ∧
      report.phase = last.phase ∧
      (∀ o ∈ report.containers,
        o.state = .terminated ∧ ∃ s ∈ earlier ++ [last], o ∈ s.observations) ∧
      (last.phase.isTerminal = true ∨
        ∀ name ∈ last.names, ∃ o ∈ report.containers, o.name = name) ∧
      ((last.phase.isTerminal = true ∨
          ∀ name, Listed (earlier ++ [last]) name → ShownTerminated (earlier ++ [last]) name) ↔
        (last.phase.isTerminal = true ∨
          ∀ name, Listed earlier name → name ∉ last.names → ShownTerminated earlier name)) := by
  obtain ⟨r', hr', hwaits⟩ := waits_of_play hr hp hn moves
  rw [hr'] at hreport
  have hfits := hwaits.fits hreport
  obtain ⟨earlier, last, hshown, hphase, hnames⟩ := hfits.names_of_last
  rw [hshown] at hfits ⊢
  exact ⟨earlier, last, rfl, hphase, hfits.containers, hnames, hfits.complete_iff hnames⟩

/-- a platform that shows some snapshots, one look after the other -/
def replay : Platform (List PodSnapshot) where
  create _ shown := (.ok none, shown)
  fetch pod
    | [] => (.error (.podNotFound pod), [])
    | s :: rest => (.ok s, rest)
  openLogs _ _ shown := (.stream (.ofReads []), shown)
  delete _ shown := (.ok (), shown)
  delay _ _ _ := 0

/-- a container that was running when it was listed for the last time -/
theorem finished_of_vanished :
    let setup : Setup (List PodSnapshot) := ⟨replay, {}, fun _ => .panicked⟩
    let spec : PodSpec := { name := "p", namespaceName := "ns", containers := [] }
    let first : PodSnapshot := { phase := .running, statuses := [.running "a" true] }
    let last : PodSnapshot := { phase := .running }
    let r : Run :=
      { step := { name := "s", image := "" }, extent := .finish
        phase := Run.beginFinishing setup spec }
    let c := ofRuns [r] { state := [first, last] } none
    let look : List Move := [.act (.run 0), .act (.run 0)]
    let moves := look ++ [.tick] ++ look
    (c.play setup moves).runs[0]?.bind (·.report) = some ⟨.running, [], []⟩ ∧
      (c.events setup 0 moves).flatMap (RunEvent.shown setup) = [first, last] ∧
      ¬ ∀ name, Listed [first, last] name → ShownTerminated [first, last] name := by
  intro setup spec first last r c look moves
  have hreport : (c.play setup moves).runs[0]?.bind (·.report) = some ⟨.running, [], []⟩ := by
    decide +kernel
  have hshown : (c.events setup 0 moves).flatMap (RunEvent.shown setup) = [first, last] := by
    decide +kernel
  refine ⟨hreport, hshown, fun hall => ?_⟩
  obtain ⟨earlier, last', heq, -, -, -, hiff⟩ :=
    finished_of_play (c := c) (r := r) rfl rfl rfl moves hreport
  have hcut : [first] ++ [last] = earlier ++ [last'] := hshown.symm.trans heq
  obtain ⟨rfl, hlast⟩ := List.append_inj' hcut rfl
  obtain rfl : last = last' := List.singleton_inj.1 hlast
  have hgone := (hiff.1 (.inr hall)).resolve_left (by decide)
  obtain ⟨s, hs, o, ho, -, hstate⟩ :=
    hgone "a" ⟨first, List.mem_singleton_self first, by decide⟩ (by decide)
  obtain rfl := List.mem_singleton.1 hs
  obtain rfl := List.mem_singleton.1 ho
  exact absurd hstate (by decide)

end Crew

end StepRunner
